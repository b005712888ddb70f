import PrivateCloud.Dispatch.System

/-! Where every fragment is.

A fragment of a request is in one place: still to be sent by a task, on its way to a
node, on its way back, or read. The `ledger` adds these places up, and `Inv` says that
the total is every fragment of every request, once. From that follow the rest of the
bookkeeping: which fragments a request waits for, that the request of a reply is
active under the uid in its header, and that a request is freed with its last reply.

The invariant is kept by every step, under four rules on the environment (`inv_step`):
nodes answer with the uids they were sent, fewer than `2^32` requests come in while one
is active, a header is available whole when it is peeked, and a loop condition that
reads a freed request ends its loop. -/
namespace PrivateCloud.Dispatch
open Nbd Host

/-! ### What a reply leaves of a request -/

/-- The same request, with another buffer and another set. -/
structure SameRequest (h h' : RequestHost) : Prop where
  reqUid : h'.reqUid = h.reqUid
  reply : h'.nbqReq.reply = h.nbqReq.reply
  reqType : h'.nbqReq.nbdReq.reqType = h.nbqReq.nbdReq.reqType
  dataLen : h'.nbqReq.nbdReq.dataLen = h.nbqReq.nbdReq.dataLen
  offset : h'.nbqReq.nbdReq.offset = h.nbqReq.nbdReq.offset

namespace SameRequest
variable {h h' : RequestHost}

protected theorem refl (h : RequestHost) : SameRequest h h := ⟨rfl, rfl, rfl, rfl, rfl⟩

theorem consume (h : RequestHost) (header : AtlasHeader) (data : List UInt8) :
    SameRequest h (consume h header data) := ⟨rfl, rfl, rfl, rfl, rfl⟩

theorem count (hs : SameRequest h h') : h'.count = h.count := by
  rw [RequestHost.count, RequestHost.count, RequestHost.dataLen, hs.dataLen]
  rfl

theorem dataLength (hs : SameRequest h h') : dataLength h' = dataLength h := by
  rw [Dispatch.dataLength, Dispatch.dataLength, hs.reqType]

theorem infoAt (hs : SameRequest h h') (i : ℕ) : h'.infoAt i = h.infoAt i := by
  have hfirst : h'.firstFragIndx = h.firstFragIndx := by
    rw [RequestHost.firstFragIndx, RequestHost.firstFragIndx, hs.offset]
  rw [RequestHost.infoAt_eq, RequestHost.infoAt_eq, hfirst, hs.reqUid, hs.reqType]

end SameRequest

/-! ### The ledger -/

def Message.fragment (m : Message) : ℕ × ℕ := (m.owner, m.header.fragmentUid.toNat)

def Reply.fragment (r : Reply) : ℕ × ℕ := (r.owner, r.header.fragmentUid.toNat)

namespace System

def count (s : System) (c : ℕ) : ℕ := (s.host c).count

/-- The fragments a task has still to send. -/
def unsent (s : System) (task : Task) : Multiset (ℕ × ℕ) :=
  (stride 8 task.i.toNat (s.count task.owner)).val.map (Prod.mk task.owner)

def toSend (s : System) : Multiset (ℕ × ℕ) :=
  ((s.queueing : Multiset Task) + (s.tasks : Multiset Task)).bind s.unsent

/-- The fragments that no node has answered. -/
def unhandled (s : System) : Multiset (ℕ × ℕ) :=
  s.toSend + (s.wire : Multiset Message).map Message.fragment

def ledger (s : System) : Multiset (ℕ × ℕ) :=
  s.unhandled + (s.pending : Multiset Reply).map Reply.fragment + (s.read : Multiset (ℕ × ℕ))

/-- A task sends from its fragment's `infoAt`, and a fragment that there is. -/
structure TaskOk (s : System) (task : Task) : Prop where
  owner : task.owner < s.disp.created
  info : task.info = (s.host task.owner).infoAt task.i.toNat
  bound : task.i.toNat < s.count task.owner + 8
  body : task.pc = .body → task.i.toNat < s.count task.owner

structure MessageOk (s : System) (m : Message) : Prop where
  header : m.header = ((s.host m.owner).infoAt m.header.fragmentUid.toNat).atlasHeader
  sockfd : m.sockfd = ((s.host m.owner).infoAt m.header.fragmentUid.toNat).sockfd

structure ReplyOk (s : System) (r : Reply) : Prop where
  requestUid : r.header.requestUid = UInt32.ofNat r.owner
  data : r.data.length = dataLength (s.host r.owner)

structure Inv (s : System) : Prop where
  uid : s.disp.reqUid = UInt32.ofNat s.disp.created
  uids : ∀ c, c < s.disp.created → (s.host c).reqUid = UInt32.ofNat c
  entry : ∀ u c, s.disp.activeRequests u = some c ↔
    c < s.disp.created ∧ u = UInt32.ofNat c ∧ s.disp.freed c = false
  nodup : s.ledger.Nodup
  ledger : ∀ c i, (c, i) ∈ s.ledger ↔ c < s.disp.created ∧ i < s.count c
  set : ∀ c, c < s.disp.created →
    (s.host c).fragmentationSet = (Finset.range (s.count c)).filter fun i => (c, i) ∉ s.read
  task : ∀ task, task ∈ s.queueing ∨ task ∈ s.tasks → TaskOk s task
  message : ∀ m ∈ s.wire, MessageOk s m
  reply : ∀ r ∈ s.pending, ReplyOk s r
  stream : ∀ sockfd, s.stream sockfd =
    (s.pending.filter fun r => r.sockfd = sockfd).flatMap Reply.bytes
  completed : (s.disp.completed.map Prod.fst).Nodup
  freed : ∀ c, s.disp.freed c = true ↔
    c < s.disp.created ∧ 0 < s.count c ∧ ∀ i < s.count c, (c, i) ∈ s.read

/-- What the requests there were become in a step. -/
structure Extends (s s' : System) : Prop where
  created : s.disp.created ≤ s'.disp.created
  same : ∀ c, c < s.disp.created → SameRequest (s.host c) (s'.host c)

namespace Extends
variable {s s' : System}

/-- A step that leaves the dispatcher alone. -/
theorem of_disp (h : s'.disp = s.disp) : Extends s s' := by
  refine ⟨by rw [h], fun c _ => ?_⟩
  rw [host, host, h]
  exact SameRequest.refl _

theorem count (h : Extends s s') {c : ℕ} (hc : c < s.disp.created) : s'.count c = s.count c :=
  (h.same c hc).count

theorem task (h : Extends s s') {task : Task} (ht : TaskOk s task) : TaskOk s' task where
  owner := Nat.lt_of_lt_of_le ht.owner h.created
  info := by rw [(h.same _ ht.owner).infoAt, ht.info]
  bound := by rw [h.count ht.owner]; exact ht.bound
  body := by rw [h.count ht.owner]; exact ht.body

theorem message (h : Extends s s') {m : Message} (hc : m.owner < s.disp.created)
    (hm : MessageOk s m) : MessageOk s' m where
  header := by rw [(h.same _ hc).infoAt]; exact hm.header
  sockfd := by rw [(h.same _ hc).infoAt]; exact hm.sockfd

theorem reply (h : Extends s s') {r : Reply} (hc : r.owner < s.disp.created)
    (hr : ReplyOk s r) : ReplyOk s' r where
  requestUid := hr.requestUid
  data := by rw [(h.same _ hc).dataLength]; exact hr.data

theorem unsent (h : Extends s s') {task : Task} (hc : task.owner < s.disp.created) :
    s'.unsent task = s.unsent task := by
  rw [System.unsent, System.unsent, h.count hc]

end Extends

/-! ### What the invariant says of one place -/

variable {s s' : System}

theorem mem_ledger_unhandled {f : ℕ × ℕ} (h : f ∈ s.unhandled) : f ∈ s.ledger :=
  Multiset.mem_add.mpr (Or.inl (Multiset.mem_add.mpr (Or.inl h)))

theorem mem_unhandled_message {m : Message} (h : m ∈ s.wire) : m.fragment ∈ s.unhandled :=
  Multiset.mem_add.mpr (Or.inr (Multiset.mem_map_of_mem _ (Multiset.mem_coe.mpr h)))

theorem mem_ledger_message {m : Message} (h : m ∈ s.wire) : m.fragment ∈ s.ledger :=
  mem_ledger_unhandled (mem_unhandled_message h)

theorem mem_ledger_reply {r : Reply} (h : r ∈ s.pending) : r.fragment ∈ s.ledger :=
  Multiset.mem_add.mpr (Or.inl (Multiset.mem_add.mpr
    (Or.inr (Multiset.mem_map_of_mem _ (Multiset.mem_coe.mpr h)))))

theorem mem_ledger_read {f : ℕ × ℕ} (h : f ∈ s.read) : f ∈ s.ledger :=
  Multiset.mem_add.mpr (Or.inr (Multiset.mem_coe.mpr h))

theorem mem_unsent {task : Task} {f : ℕ × ℕ} : f ∈ s.unsent task ↔
    f.1 = task.owner ∧ f.2 ∈ stride 8 task.i.toNat (s.count task.owner) := by
  obtain ⟨c, i⟩ := f
  simp only [unsent, Multiset.mem_map, Finset.mem_val, Prod.mk.injEq]
  constructor
  · rintro ⟨j, hj, rfl, rfl⟩
    exact ⟨rfl, hj⟩
  · rintro ⟨rfl, hj⟩
    exact ⟨i, hj, rfl, rfl⟩

theorem mem_unhandled_task {task : Task} (h : task ∈ s.queueing ∨ task ∈ s.tasks) {f : ℕ × ℕ}
    (hf : f ∈ s.unsent task) : f ∈ s.unhandled := by
  refine Multiset.mem_add.mpr (Or.inl (Multiset.mem_bind.mpr ⟨task, Multiset.mem_add.mpr ?_, hf⟩))
  exact h.imp Multiset.mem_coe.mpr Multiset.mem_coe.mpr

/-- A fragment that has still to be handled, or is on its way back, has not been read. -/
theorem Inv.not_read {f : ℕ × ℕ} (h : Inv s)
    (hf : f ∈ s.unhandled ∨ ∃ r ∈ s.pending, r.fragment = f) : f ∉ s.read := by
  intro hread
  refine (Multiset.disjoint_left.mp (Multiset.nodup_add.mp h.nodup).2.2) ?_ (Multiset.mem_coe.mpr hread)
  rcases hf with hf | ⟨r, hr, rfl⟩
  · exact Multiset.mem_add.mpr (Or.inl hf)
  · exact Multiset.mem_add.mpr (Or.inr (Multiset.mem_map_of_mem _ (Multiset.mem_coe.mpr hr)))

/-- **A task of a freed request has nothing left to send.** -/
theorem Inv.stale_done (h : Inv s) {task : Task} (ht : task ∈ s.queueing ∨ task ∈ s.tasks)
    (hfreed : s.disp.freed task.owner = true) : s.count task.owner ≤ task.i.toNat := by
  by_contra hlt
  obtain ⟨-, -, hall⟩ := (h.freed _).mp hfreed
  have hsend : (task.owner, task.i.toNat) ∈ s.unsent task :=
    mem_unsent.mpr ⟨rfl, Stride.mem_stride.mpr ⟨by omega, Nat.le_refl _, rfl⟩⟩
  exact h.not_read (Or.inl (mem_unhandled_task ht hsend)) (hall task.i.toNat (by omega))

/-- The request of a reply on its way is there, and has not been freed. -/
theorem Inv.reply_active (h : Inv s) {r : Reply} (hr : r ∈ s.pending) :
    r.owner < s.disp.created ∧ r.header.fragmentUid.toNat < s.count r.owner ∧
      s.disp.freed r.owner = false ∧ s.disp.activeRequests r.header.requestUid = some r.owner := by
  obtain ⟨hcreated, hlt⟩ := (h.ledger _ _).mp (mem_ledger_reply hr)
  have hfreed : s.disp.freed r.owner = false := by
    rw [← Bool.not_eq_true]
    intro hf
    obtain ⟨-, -, hall⟩ := (h.freed _).mp hf
    exact h.not_read (Or.inr ⟨r, hr, rfl⟩) (hall _ hlt)
  refine ⟨hcreated, hlt, hfreed, ?_⟩
  rw [(h.reply r hr).requestUid]
  exact (h.entry _ _).mpr ⟨hcreated, rfl, hfreed⟩

/-! ### The start -/

theorem inv_init : Inv init where
  uid := rfl
  uids := fun c hc => absurd hc (Nat.not_lt_zero c)
  entry := fun u c => ⟨fun h => (nomatch h), fun h => absurd h.1 (Nat.not_lt_zero c)⟩
  nodup := Multiset.nodup_zero
  ledger := fun c i => ⟨fun h => absurd h (Multiset.notMem_zero _), fun h => absurd h.1 (Nat.not_lt_zero c)⟩
  set := fun c hc => absurd hc (Nat.not_lt_zero c)
  task := fun task h => by rcases h with h | h <;> cases h
  message := fun _ h => nomatch h
  reply := fun _ h => nomatch h
  stream := fun _ => rfl
  completed := List.nodup_nil
  freed := fun c => ⟨fun h => (nomatch h), fun h => absurd h.1 (Nat.not_lt_zero c)⟩

/-! ### Steps that do not touch the dispatcher -/

theorem host_congr (h : s'.disp = s.disp) : s'.host = s.host := by
  funext c
  rw [host, host, h]

theorem count_congr (h : s'.disp = s.disp) : s'.count = s.count := by
  funext c
  rw [count, count, host_congr h]

/-- What such a step has to show. -/
theorem Inv.quiet (h : Inv s) (hdisp : s'.disp = s.disp) (hread : s'.read = s.read)
    (hledger : s'.ledger = s.ledger)
    (htask : ∀ task, task ∈ s'.queueing ∨ task ∈ s'.tasks → TaskOk s task)
    (hmessage : ∀ m ∈ s'.wire, MessageOk s m) (hreply : ∀ r ∈ s'.pending, ReplyOk s r)
    (hstream : ∀ sockfd, s'.stream sockfd =
      (s'.pending.filter fun r => r.sockfd = sockfd).flatMap Reply.bytes) : Inv s' := by
  have hext : Extends s s' := Extends.of_disp hdisp
  have hhost := host_congr hdisp
  have hcount := count_congr hdisp
  have howner {f : ℕ × ℕ} (hf : f ∈ s'.ledger) : f.1 < s.disp.created := by
    rw [hledger] at hf
    exact ((h.ledger f.1 f.2).mp hf).1
  constructor
  case uid => rw [hdisp]; exact h.uid
  case uids => rw [hdisp, hhost]; exact h.uids
  case entry => rw [hdisp]; exact h.entry
  case nodup => rw [hledger]; exact h.nodup
  case ledger => rw [hledger, hdisp, hcount]; exact h.ledger
  case set => rw [hdisp, hhost, hcount, hread]; exact h.set
  case task => exact fun task ht => hext.task (htask task ht)
  case message => exact fun m hm => hext.message (howner (mem_ledger_message hm)) (hmessage m hm)
  case reply => exact fun r hr => hext.reply (howner (mem_ledger_reply hr)) (hreply r hr)
  case stream => exact hstream
  case completed => rw [hdisp]; exact h.completed
  case freed => rw [hdisp, hcount, hread]; exact h.freed

theorem unhandled_async (hs : s.step .async = some s') : s'.unhandled = s.unhandled := by
  obtain ⟨task, rest, hq, rfl⟩ := async_cases hs
  have hmove : (rest : Multiset Task) + (task :: s.tasks : List Task) = s.queueing + s.tasks := by
    rw [hq, ← Multiset.cons_coe, ← Multiset.cons_coe, Multiset.add_cons, Multiset.cons_add]
  show ((rest : Multiset Task) + (task :: s.tasks : List Task)).bind s.unsent + _ = _
  rw [hmove]
  rfl

theorem inv_async (h : Inv s) (hs : s.step .async = some s') : Inv s' := by
  have hunhandled := unhandled_async hs
  obtain ⟨task, rest, hq, rfl⟩ := async_cases hs
  refine h.quiet rfl rfl (by rw [System.ledger, hunhandled]; rfl) (fun t ht => h.task t ?_) h.message
    h.reply h.stream
  rw [hq, List.mem_cons]
  simp only [List.mem_cons] at ht
  tauto

/-- A task's loop condition, in its own terms. -/
theorem lt_count_iff (s : System) (task : Task) :
    task.i < fragments (s.host task.owner).dataLen ↔ task.i.toNat < s.count task.owner := by
  rw [UInt32.lt_iff_toNat_lt]
  rfl

/-- It is the real one, unless the request was freed and nothing is left. -/
theorem Inv.test_iff (h : Inv s) {k : ℕ} {seen : UInt32} {task : Task} (hk : s.tasks[k]? = some task)
    (hrule : EndsStale s (.test k seen)) :
    task.i < fragments (s.dataLenAt task.owner seen) ↔ task.i.toNat < s.count task.owner := by
  have hmem := List.mem_of_getElem? hk
  by_cases hfreed : s.disp.freed task.owner = true
  · rw [dataLenAt, if_pos hfreed]
    exact iff_of_false (hrule task hk hfreed) (Nat.not_lt.mpr (h.stale_done (Or.inr hmem) hfreed))
  · rw [dataLenAt, if_neg hfreed]
    exact s.lt_count_iff task

theorem unsent_done {task : Task} (h : s.count task.owner ≤ task.i.toNat) : s.unsent task = 0 := by
  rw [unsent, Stride.stride_eq_empty h]
  rfl

/-- What the pool's tasks have to send, with the one at `k` taken out. -/
theorem toSend_eq {k : ℕ} {task : Task} (hk : s.tasks[k]? = some task) :
    s.toSend = s.unsent task +
      ((s.queueing : Multiset Task) + (s.tasks.eraseIdx k : Multiset Task)).bind s.unsent := by
  rw [toSend, Bag.coe_eq_cons hk, Multiset.add_cons, Multiset.cons_bind]

theorem toSend_set {k : ℕ} {task : Task} (hk : s.tasks[k]? = some task) (task' : Task) :
    ((s.queueing : Multiset Task) + (s.tasks.set k task' : List Task)).bind s.unsent =
      s.unsent task' +
        ((s.queueing : Multiset Task) + (s.tasks.eraseIdx k : Multiset Task)).bind s.unsent := by
  rw [Bag.coe_set hk, Multiset.add_cons, Multiset.cons_bind]

theorem Inv.unhandled_test {k : ℕ} {seen : UInt32} (h : Inv s) (hrule : EndsStale s (.test k seen))
    (hs : s.step (.test k seen) = some s') : s'.unhandled = s.unhandled := by
  obtain ⟨task, hk, -, ⟨-, rfl⟩ | ⟨hge, rfl⟩⟩ := test_cases hs
  · have hsame : s.unsent {task with pc := .body} = s.unsent task := rfl
    show ((s.queueing : Multiset Task) + (s.tasks.set k _ : List Task)).bind s.unsent + _ = _
    rw [toSend_set hk, hsame, ← toSend_eq hk]
    rfl
  · have hdone := unsent_done (Nat.not_lt.mp fun hcon => hge ((h.test_iff hk hrule).mpr hcon))
    show ((s.queueing : Multiset Task) + (s.tasks.eraseIdx k : List Task)).bind s.unsent + _ = _
    rw [System.unhandled, toSend_eq hk, hdone, zero_add]

theorem inv_test {k : ℕ} {seen : UInt32} (h : Inv s) (hrule : EndsStale s (.test k seen))
    (hs : s.step (.test k seen) = some s') : Inv s' := by
  have hunhandled := h.unhandled_test hrule hs
  obtain ⟨task, hk, -, ⟨hlt, rfl⟩ | ⟨-, rfl⟩⟩ := test_cases hs
  · refine h.quiet rfl rfl (by rw [System.ledger, hunhandled]; rfl) (fun t ht => ?_) h.message h.reply
      h.stream
    rcases ht with ht | ht
    · exact h.task t (Or.inl ht)
    · rcases Bag.mem_set ht with rfl | ht
      · have hok := h.task task (Or.inr (List.mem_of_getElem? hk))
        exact ⟨hok.owner, hok.info, hok.bound, fun _ => (h.test_iff hk hrule).mp hlt⟩
      · exact h.task t (Or.inr ht)
  · exact h.quiet rfl rfl (by rw [System.ledger, hunhandled]; rfl)
      (fun t ht => h.task t (ht.imp id List.mem_of_mem_eraseIdx)) h.message h.reply h.stream

/-- A task at its loop body, its next fragment and what is left after it. -/
theorem Inv.body_turn (h : Inv s) {k : ℕ} {task : Task} (hk : s.tasks[k]? = some task)
    (hpc : task.pc = .body) : task.i.toNat < s.count task.owner ∧
      task.info.atlasHeader.fragmentUid.toNat = task.i.toNat ∧
      (task.i + numOfIot).toNat = task.i.toNat + 8 ∧
      s.unsent task = (task.owner, task.i.toNat) ::ₘ
        s.unsent ⟨task.owner, task.info.advance, task.i + numOfIot, .test⟩ := by
  have hok := h.task task (Or.inr (List.mem_of_getElem? hk))
  have hlt := hok.body hpc
  have hcount : s.count task.owner < 2 ^ 22 := (s.host task.owner).count_lt
  have hinc : (task.i + numOfIot).toNat = task.i.toNat + 8 := by
    rw [UInt32.toNat_add]
    show (task.i.toNat + 8) % 2 ^ 32 = _
    omega
  refine ⟨hlt, ?_, hinc, ?_⟩
  · rw [hok.info, RequestHost.infoAt_fragmentUid _ (by omega)]
  · simp only [unsent, hinc]
    rw [Stride.stride_val_cons (by decide) hlt, Multiset.map_cons]

theorem Inv.unhandled_send {k : ℕ} {junk : Memory} (h : Inv s)
    (hs : s.step (.send k junk) = some s') : s'.unhandled = s.unhandled := by
  obtain ⟨task, command, hk, hpc, -, rfl⟩ := send_cases hs
  obtain ⟨-, huid, -, hturn⟩ := h.body_turn hk hpc
  show ((s.queueing : Multiset Task) + (s.tasks.set k _ : List Task)).bind s.unsent +
    ((_ :: s.wire : List Message) : Multiset Message).map Message.fragment = _
  rw [System.unhandled, toSend_set hk, toSend_eq hk, hturn, ← Multiset.cons_coe, Multiset.map_cons]
  simp only [Message.fragment, huid, Multiset.cons_add, Multiset.add_cons]

theorem inv_send {k : ℕ} {junk : Memory} (h : Inv s) (hs : s.step (.send k junk) = some s') :
    Inv s' := by
  have hunhandled := h.unhandled_send hs
  obtain ⟨task, command, hk, hpc, -, rfl⟩ := send_cases hs
  have hok := h.task task (Or.inr (List.mem_of_getElem? hk))
  obtain ⟨hlt, huid, hinc, -⟩ := h.body_turn hk hpc
  refine h.quiet rfl rfl (by rw [System.ledger, hunhandled]; rfl) (fun t ht => ?_) (fun m hm => ?_)
    h.reply h.stream
  · rcases ht with ht | ht
    · exact h.task t (Or.inl ht)
    · rcases Bag.mem_set ht with rfl | ht
      · refine ⟨hok.owner, ?_, ?_, fun hcon => nomatch hcon⟩
        · rw [hinc, RequestHost.infoAt_advance, ← hok.info]
        · show (task.i + numOfIot).toNat < s.count task.owner + 8
          omega
      · exact h.task t (Or.inr ht)
  · rcases List.mem_cons.mp hm with rfl | hm
    · constructor
      · simp only [huid, ← hok.info]
      · simp only [huid, ← hok.info]
    · exact h.message m hm

theorem unhandled_answer {k : ℕ} {header : AtlasHeader} {data : List UInt8} {m : Message}
    (hk : s.wire[k]? = some m) (hs : s.step (.answer k header data) = some s') :
    s.unhandled = m.fragment ::ₘ s'.unhandled := by
  obtain ⟨m', hk', rfl⟩ := answer_cases hs
  rw [System.unhandled, Bag.coe_eq_cons hk, Multiset.map_cons, Multiset.add_cons]
  rfl

theorem inv_answer {k : ℕ} {header : AtlasHeader} {data : List UInt8} (h : Inv s)
    (hrule : Honest s (.answer k header data)) (hs : s.step (.answer k header data) = some s') :
    Inv s' := by
  have hstep := hs
  obtain ⟨m, hk, rfl⟩ := answer_cases hs
  have hunhandled := unhandled_answer hk hstep
  obtain ⟨huid, hfragment, hdata⟩ := hrule m hk
  have hmem := List.mem_of_getElem? hk
  have hok := h.message m hmem
  obtain ⟨howner, -⟩ := (h.ledger _ _).mp (mem_ledger_message hmem)
  refine h.quiet rfl rfl ?_ h.task (fun m' hm' => h.message m' (List.mem_of_mem_eraseIdx hm'))
    (fun r hr => ?_) (fun sockfd => ?_)
  · rw [System.ledger, System.ledger, hunhandled]
    show _ + ((s.pending ++ [_] : List Reply) : Multiset Reply).map Reply.fragment + _ = _
    rw [← Multiset.coe_add, Multiset.map_add, Multiset.coe_singleton, Multiset.map_singleton,
      Message.fragment, Reply.fragment, hfragment, ← Multiset.singleton_add]
    ac_rfl
  · rcases List.mem_append.mp hr with hr | hr
    · exact h.reply r hr
    · obtain rfl := List.mem_singleton.mp hr
      constructor
      · rw [huid, hok.header, RequestHost.infoAt_eq]
        exact h.uids _ howner
      · rw [hdata, hok.header, RequestHost.infoAt_eq]
        rfl
  · rw [List.filter_append, List.flatMap_append, ← h.stream sockfd]
    by_cases hsock : m.sockfd = sockfd
    · subst hsock
      simp [Reply.bytes]
    · simp [hsock, Function.update_of_ne (Ne.symm hsock)]

/-! ### A reply read -/

/-- **What lies on a socket** is the replies on their way there, and the first of them
is handled by its own request. -/
theorem Inv.iotHandle (h : Inv s) {sockfd : ℕ} (hstream : s.stream sockfd ≠ []) {cuts : ℕ → ℕ}
    (hcut : 4 ≤ cuts 0) :
    ∃ r rest cuts', (s.pending.filter fun r => r.sockfd = sockfd) = r :: rest ∧ r ∈ s.pending ∧
      s.disp.iotHandle ⟨s.stream sockfd, cuts⟩ =
        .ok (s.disp.handleReply r.header.requestUid r.owner r.header r.data,
          ⟨rest.flatMap Reply.bytes, cuts'⟩) := by
  cases hfilter : s.pending.filter fun r => r.sockfd = sockfd with
  | nil =>
    rw [h.stream, hfilter] at hstream
    exact absurd rfl hstream
  | cons r rest =>
    have hr : r ∈ s.pending := (List.mem_filter.mp (hfilter ▸ List.mem_cons_self)).1
    obtain ⟨-, hlt, -, hactive⟩ := h.reply_active hr
    obtain ⟨cuts', hiot⟩ := Dispatcher.iotHandle_store s.disp r.header r.data
      (rest.flatMap Reply.bytes) cuts hcut hactive (h.reply r hr).data
    have hfits : Fits (s.disp.host r.owner) r.header := by
      obtain ⟨hstart, hinside⟩ := (s.disp.host r.owner).slice_inside hlt
      intro _
      rwa [hstart]
    rw [if_pos hfits] at hiot
    refine ⟨r, rest, cuts', rfl, hr, ?_⟩
    rw [h.stream, hfilter, List.flatMap_cons, Reply.bytes, List.append_assoc]
    exact hiot

/-- What the step on a socket comes to. -/
theorem Inv.iot_cases (h : Inv s) {sockfd : ℕ} {cuts : ℕ → ℕ} (hcut : 4 ≤ cuts 0)
    (hs : s.step (.iot sockfd cuts) = some s') :
    ∃ r rest, (s.pending.filter fun r => r.sockfd = sockfd) = r :: rest ∧ r ∈ s.pending ∧
      s.queueing = [] ∧ s' = { s with
        disp := s.disp.handleReply r.header.requestUid r.owner r.header r.data
        stream := Function.update s.stream sockfd (rest.flatMap Reply.bytes)
        pending := s.pending.eraseP fun r => r.sockfd = sockfd
        read := r.fragment :: s.read } := by
  obtain ⟨hq, hstream, disp, socket, hiot, rfl⟩ := System.iot_cases hs
  obtain ⟨r, rest, cuts', hfilter, hr, hok⟩ := h.iotHandle hstream hcut
  obtain ⟨rfl, rfl⟩ := Prod.mk.inj (Except.ok.inj (hiot.symm.trans hok))
  refine ⟨r, rest, hfilter, hr, hq, ?_⟩
  rw [Bag.find?_of_filter hfilter]
  rfl

theorem host_handleReply {r : Reply} (hdisp : s'.disp =
    s.disp.handleReply r.header.requestUid r.owner r.header r.data) (c : ℕ) :
    s'.host c = if c = r.owner then consume (s.host r.owner) r.header r.data else s.host c := by
  rw [host, hdisp, Dispatcher.handleReply_host, Function.update_apply]
  rfl

theorem same_handleReply (s : System) (r : Reply) :
    (s.disp.handleReply r.header.requestUid r.owner r.header r.data).created = s.disp.created ∧
      ∀ c, SameRequest (s.host c)
        ((s.disp.handleReply r.header.requestUid r.owner r.header r.data).host c) := by
  refine ⟨by rw [Dispatcher.handleReply_eq], fun c => ?_⟩
  rw [Dispatcher.handleReply_host, Function.update_apply]
  split
  case isTrue hc =>
    subst hc
    exact SameRequest.consume _ _ _
  case isFalse => exact SameRequest.refl _

/-- The last reply of a request is the one whose fragment alone has not been read. -/
theorem Inv.last_iff (h : Inv s) {r : Reply} (hr : r ∈ s.pending) :
    Dispatcher.Last s.disp r.owner r.header ↔
      ∀ i < s.count r.owner, (r.owner, i) ∈ r.fragment :: s.read := by
  obtain ⟨hcreated, -, -, -⟩ := h.reply_active hr
  rw [Dispatcher.Last, show s.disp.host = s.host from rfl, h.set r.owner hcreated,
    Finset.eq_empty_iff_forall_notMem]
  refine forall_congr' fun i => ?_
  simp only [Finset.mem_erase, Finset.mem_filter, Finset.mem_range, List.mem_cons, Reply.fragment,
    Prod.mk.injEq, true_and]
  tauto

theorem Inv.unhandled_iot {sockfd : ℕ} {cuts : ℕ → ℕ} (h : Inv s) (hcut : 4 ≤ cuts 0)
    (hs : s.step (.iot sockfd cuts) = some s') : s'.unhandled = s.unhandled := by
  obtain ⟨r, rest, -, -, -, rfl⟩ := h.iot_cases hcut hs
  obtain ⟨hsame, hreq⟩ := same_handleReply s r
  have hext : Extends s {s with disp := s.disp.handleReply r.header.requestUid r.owner r.header r.data} :=
    ⟨hsame.ge, fun c _ => hreq c⟩
  refine congrArg (fun sends => sends + (s.wire : Multiset Message).map Message.fragment) ?_
  refine Multiset.bind_congr fun task ht => ?_
  have htask : task ∈ s.queueing ∨ task ∈ s.tasks :=
    (Multiset.mem_add.mp ht).imp Multiset.mem_coe.mp Multiset.mem_coe.mp
  exact hext.unsent (h.task task htask).owner

/-- Who is under which uid: not the request whose last reply this was. -/
theorem Inv.entry_iot (h : Inv s) {r : Reply} (hr : r ∈ s.pending) (u : UInt32) (b : ℕ) :
    (s.disp.handleReply r.header.requestUid r.owner r.header r.data).activeRequests u = some b ↔
      b < s.disp.created ∧ u = UInt32.ofNat b ∧
        ¬(s.disp.freed b = true ∨ (b = r.owner ∧ Dispatcher.Last s.disp r.owner r.header)) := by
  obtain ⟨-, -, -, hactive⟩ := h.reply_active hr
  have hentry := h.entry u b
  rw [← Bool.not_eq_true] at hentry
  rw [Dispatcher.handleReply_eq]
  dsimp only
  by_cases hlast : Dispatcher.Last s.disp r.owner r.header
  · simp only [hlast, if_true, and_true, not_or]
    by_cases hu : u = r.header.requestUid
    · -- The entry that goes is the only one under its uid.
      subst hu
      simp only [Function.update_self, reduceCtorEq, false_iff]
      rintro ⟨hb, hub, hfb, hne⟩
      have := hentry.mpr ⟨hb, hub, hfb⟩
      exact hne (Option.some.inj (this.symm.trans hactive))
    · rw [Function.update_of_ne hu, hentry]
      refine ⟨fun ⟨hb, hub, hfb⟩ => ⟨hb, hub, hfb, ?_⟩, fun ⟨hb, hub, hfb, _⟩ => ⟨hb, hub, hfb⟩⟩
      rintro rfl
      exact hu (hub.trans (h.reply r hr).requestUid.symm)
  · simp only [hlast, if_false, and_false, or_false]
    exact hentry

/-- What each request waits for, with this reply read. -/
theorem Inv.set_iot (h : Inv s) {r : Reply} (hdisp : s'.disp =
    s.disp.handleReply r.header.requestUid r.owner r.header r.data) {c : ℕ} (hc : c < s.disp.created) :
    (s'.host c).fragmentationSet =
      (Finset.range (s.count c)).filter fun i => (c, i) ∉ r.fragment :: s.read := by
  rw [host_handleReply hdisp]
  by_cases hcr : c = r.owner
  · subst hcr
    rw [if_pos rfl]
    show (s.host r.owner).fragmentationSet.erase r.header.fragmentUid.toNat = _
    rw [h.set _ hc]
    ext i
    simp only [Finset.mem_erase, Finset.mem_filter, Finset.mem_range, List.mem_cons, Reply.fragment,
      Prod.mk.injEq, true_and]
    tauto
  · rw [if_neg hcr, h.set c hc]
    ext i
    simp only [Finset.mem_filter, Finset.mem_range, List.mem_cons, Reply.fragment, Prod.mk.injEq, hcr,
      false_and, false_or]

theorem inv_iot {sockfd : ℕ} {cuts : ℕ → ℕ} (h : Inv s) (hrule : PeeksWhole s (.iot sockfd cuts))
    (hs : s.step (.iot sockfd cuts) = some s') : Inv s' := by
  have hunhandled := h.unhandled_iot hrule hs
  obtain ⟨r, rest, hfilter, hr, -, rfl⟩ := h.iot_cases hrule hs
  set s' : System := { s with
    disp := s.disp.handleReply r.header.requestUid r.owner r.header r.data
    stream := Function.update s.stream sockfd (rest.flatMap Reply.bytes)
    pending := s.pending.eraseP fun r => r.sockfd = sockfd
    read := r.fragment :: s.read } with hs'
  have hdisp : s'.disp = s.disp.handleReply r.header.requestUid r.owner r.header r.data := rfl
  obtain ⟨hcreated, hlt, hnew, -⟩ := h.reply_active hr
  obtain ⟨hsame, hreq⟩ : s'.disp.created = s.disp.created ∧
      ∀ c, SameRequest (s.host c) (s'.host c) := same_handleReply s r
  have hext : Extends s s' := ⟨hsame.ge, fun c _ => hreq c⟩
  have hcount : s'.count = s.count := funext fun c => (hreq c).count
  have hfreed (b : ℕ) : s'.disp.freed b = true ↔
      s.disp.freed b = true ∨ (b = r.owner ∧ Dispatcher.Last s.disp r.owner r.header) :=
    Dispatcher.handleReply_freed ..
  have hledger : s'.ledger = s.ledger := by
    rw [System.ledger, System.ledger, hunhandled, Bag.coe_eraseP hfilter, Multiset.map_cons]
    show _ + _ + ((r.fragment :: s.read : List (ℕ × ℕ)) : Multiset (ℕ × ℕ)) = _
    rw [← Multiset.cons_coe, Multiset.add_cons, Multiset.add_cons, Multiset.cons_add]
  have hrest {r' : Reply} (hr' : r' ∈ s'.pending) : r' ∈ s.pending := List.mem_of_mem_eraseP hr'
  constructor
  case uid => rw [hdisp, Dispatcher.handleReply_eq]; exact h.uid
  case uids =>
    intro c hc
    rw [(hreq c).reqUid]
    exact h.uids c (hsame ▸ hc)
  case entry =>
    intro u b
    rw [hsame, ← Bool.not_eq_true, hfreed]
    exact h.entry_iot hr u b
  case nodup => rw [hledger]; exact h.nodup
  case ledger => rw [hledger, hsame, hcount]; exact h.ledger
  case set =>
    intro c hc
    rw [hcount]
    exact h.set_iot hdisp (hsame ▸ hc)
  case task => exact fun task ht => hext.task (h.task task ht)
  case message =>
    exact fun m hm => hext.message ((h.ledger _ _).mp (mem_ledger_message hm)).1 (h.message m hm)
  case reply => exact fun r' hr' => hext.reply (h.reply_active (hrest hr')).1 (h.reply r' (hrest hr'))
  case stream =>
    intro fd
    by_cases hfd : fd = sockfd
    · subst hfd
      simp only [hs', Function.update_self]
      rw [Bag.filter_eraseP, hfilter, List.tail_cons]
    · simp only [hs', Function.update_of_ne hfd]
      rw [Bag.filter_eraseP_other, h.stream]
      intro x hx
      simp only [decide_eq_true_eq] at hx
      simp [hx, Ne.symm hfd]
  case completed =>
    rw [hdisp, Dispatcher.handleReply_eq]
    dsimp only
    split
    case isTrue =>
      rw [List.map_append, List.nodup_append]
      refine ⟨h.completed, List.nodup_singleton _, ?_⟩
      rintro a ha b hb rfl
      obtain rfl := List.mem_singleton.mp hb
      rw [Dispatcher.freed, decide_eq_false_iff_not] at hnew
      exact hnew ha
    case isFalse => exact h.completed
  case freed =>
    intro c
    rw [hfreed, hsame, hcount]
    by_cases hcr : c = r.owner
    · subst hcr
      rw [h.last_iff hr]
      simp only [hnew, Bool.false_eq_true, true_and, false_or, hcreated]
      exact ⟨fun hall => ⟨by omega, hall⟩, fun hall => hall.2⟩
    · rw [h.freed c]
      simp only [hcr, false_and, or_false, hs', List.mem_cons, Reply.fragment, Prod.mk.injEq, false_or]

/-! ### A request taken -/

theorem tasksOf_eq (h : RequestHost) (owner : ℕ) : tasksOf h owner =
    (List.range (min h.count 8)).map fun j => ⟨owner, h.infoAt j, UInt32.ofNat j, .test⟩ := by
  rw [tasksOf, RequestHost.distribute_eq, List.map_map]
  refine List.map_congr_left fun j _ => ?_
  simp only [Function.comp_apply, RequestHost.infoAt_eq]

theorem mem_tasksOf {h : RequestHost} {owner : ℕ} {task : Task} (ht : task ∈ tasksOf h owner) :
    ∃ j < min h.count 8, task = ⟨owner, h.infoAt j, UInt32.ofNat j, .test⟩ := by
  rw [tasksOf_eq] at ht
  obtain ⟨j, hj, rfl⟩ := List.mem_map.mp ht
  exact ⟨j, List.mem_range.mp hj, rfl⟩

/-- **The tasks of a request** have each of its fragments to send, once. -/
theorem bind_tasksOf (h : RequestHost) (owner : ℕ) :
    (tasksOf h owner : Multiset Task).bind
        (fun task => (stride 8 task.i.toNat h.count).val.map (Prod.mk owner)) =
      (Multiset.range h.count).map (Prod.mk owner) := by
  rw [tasksOf_eq, ← Multiset.map_coe, Multiset.bind_map, ← Stride.bind_stride (by decide : 0 < 8),
    Multiset.map_bind]
  refine Multiset.bind_congr fun j hj => ?_
  have hlt : j < min h.count 8 := List.mem_range.mp (Multiset.mem_coe.mp hj)
  rw [UInt32.toNat_ofNat_of_lt' (show j < 2 ^ 32 by omega)]

theorem host_nbd {message : NbdMessage} (hs : s.step (.nbd message) = some s') (c : ℕ) :
    s'.host c = if c = s.disp.created then RequestHost.create s.disp.reqUid message else s.host c := by
  obtain ⟨-, rfl⟩ := nbd_cases hs
  show Function.update s.disp.host s.disp.created _ c = _
  rw [Function.update_apply]
  rfl

theorem host_nbd_new {message : NbdMessage} (hs : s.step (.nbd message) = some s') :
    s'.host s.disp.created = RequestHost.create s.disp.reqUid message := by
  rw [host_nbd hs, if_pos rfl]

theorem host_nbd_old {message : NbdMessage} (hs : s.step (.nbd message) = some s') {c : ℕ}
    (hc : c < s.disp.created) : s'.host c = s.host c := by
  rw [host_nbd hs, if_neg (Nat.ne_of_lt hc)]

theorem created_nbd {message : NbdMessage} (hs : s.step (.nbd message) = some s') :
    s'.disp.created = s.disp.created + 1 := by
  obtain ⟨-, rfl⟩ := nbd_cases hs
  rfl

theorem extends_nbd {message : NbdMessage} (hs : s.step (.nbd message) = some s') : Extends s s' := by
  refine ⟨by rw [created_nbd hs]; exact Nat.le_succ _, fun c hc => ?_⟩
  rw [host_nbd_old hs hc]
  exact SameRequest.refl _

/-- The new request's fragments, all of them to be sent. -/
theorem Inv.unhandled_nbd {message : NbdMessage} (h : Inv s) (hs : s.step (.nbd message) = some s') :
    s'.unhandled =
      (Multiset.range (s'.count s.disp.created)).map (Prod.mk s.disp.created) + s.unhandled := by
  have hext := extends_nbd hs
  have hcount : s'.count s.disp.created = (RequestHost.create s.disp.reqUid message).count := by
    rw [System.count, host_nbd_new hs]
  obtain ⟨hq, hs'⟩ := nbd_cases hs
  have hnewsend : (s'.queueing : Multiset Task).bind s'.unsent =
      (Multiset.range (s'.count s.disp.created)).map (Prod.mk s.disp.created) := by
    rw [hcount, ← bind_tasksOf, show s'.queueing = tasksOf _ _ by rw [hs']]
    refine Multiset.bind_congr fun task ht => ?_
    obtain ⟨j, -, rfl⟩ := mem_tasksOf (Multiset.mem_coe.mp ht)
    rw [unsent, hcount]
  have holdsend : (s'.tasks : Multiset Task).bind s'.unsent =
      (s.tasks : Multiset Task).bind s.unsent := by
    rw [show s'.tasks = s.tasks by rw [hs']]
    exact Multiset.bind_congr fun task ht =>
      hext.unsent (h.task task (Or.inr (Multiset.mem_coe.mp ht))).owner
  rw [System.unhandled, System.unhandled, toSend, toSend, Multiset.add_bind, Multiset.add_bind,
    hnewsend, holdsend, hq, show s'.wire = s.wire by rw [hs'], Multiset.coe_nil, Multiset.zero_bind,
    zero_add, add_assoc]

/-- A new request takes a uid under which there is no entry. -/
theorem Inv.fresh (h : Inv s) {message : NbdMessage} (hrule : FewActive s (.nbd message)) :
    s.disp.activeRequests s.disp.reqUid = none := by
  cases hactive : s.disp.activeRequests s.disp.reqUid with
  | none => rfl
  | some c =>
    obtain ⟨hc, huid, -⟩ := (h.entry _ _).mp hactive
    have hfew := hrule _ _ hactive
    rw [h.uid] at huid
    have hmod := congrArg UInt32.toNat huid
    simp only [UInt32.toNat_ofNat'] at hmod
    omega

/-- Who is under which uid, the new request included. -/
theorem Inv.entry_nbd {message : NbdMessage} (h : Inv s) (hrule : FewActive s (.nbd message))
    (u : UInt32) (b : ℕ) :
    Function.update s.disp.activeRequests s.disp.reqUid (some s.disp.created) u = some b ↔
      b < s.disp.created + 1 ∧ u = UInt32.ofNat b ∧ s.disp.freed b = false := by
  have hfresh := h.fresh hrule
  by_cases hu : u = s.disp.reqUid
  · subst hu
    rw [Function.update_self, Option.some.injEq]
    constructor
    · rintro rfl
      refine ⟨Nat.lt_succ_self _, h.uid, ?_⟩
      rw [← Bool.not_eq_true]
      exact fun hf => absurd ((h.freed _).mp hf).1 (Nat.lt_irrefl _)
    · rintro ⟨hb, hub, hfb⟩
      rcases Nat.lt_succ_iff_lt_or_eq.mp hb with hb | rfl
      · cases hfresh.symm.trans ((h.entry _ _).mpr ⟨hb, hub, hfb⟩)
      · rfl
  · rw [Function.update_of_ne hu, h.entry]
    refine ⟨fun ⟨hb, hrest⟩ => ⟨Nat.lt_succ_of_lt hb, hrest⟩, fun ⟨hb, hub, hfb⟩ => ⟨?_, hub, hfb⟩⟩
    rcases Nat.lt_succ_iff_lt_or_eq.mp hb with hb | rfl
    · exact hb
    · exact absurd (hub.trans h.uid.symm) hu

theorem inv_nbd {message : NbdMessage} (h : Inv s) (hrule : FewActive s (.nbd message))
    (hs : s.step (.nbd message) = some s') : Inv s' := by
  have hext := extends_nbd hs
  have hnew := host_nbd_new hs
  have hunread (i : ℕ) : (s.disp.created, i) ∉ s.read := fun hread =>
    absurd ((h.ledger _ _).mp (mem_ledger_read hread)).1 (Nat.lt_irrefl _)
  have hledger : s'.ledger =
      (Multiset.range (s'.count s.disp.created)).map (Prod.mk s.disp.created) + s.ledger := by
    have hunhandled := h.unhandled_nbd hs
    obtain ⟨-, hs'⟩ := nbd_cases hs
    rw [System.ledger, System.ledger, hunhandled, show s'.pending = s.pending by rw [hs'],
      show s'.read = s.read by rw [hs'], add_assoc, add_assoc, add_assoc]
  have hold {c : ℕ} (hc : c < s.disp.created) := host_nbd_old hs hc
  have hcreated := created_nbd hs
  have hcases {c : ℕ} (hc : c < s'.disp.created) : c < s.disp.created ∨ c = s.disp.created := by
    omega
  obtain ⟨-, rfl⟩ := nbd_cases hs
  constructor
  case uid =>
    show s.disp.reqUid + 1 = UInt32.ofNat (s.disp.created + 1)
    rw [h.uid, UInt32.ofNat_add]
    rfl
  case uids =>
    intro c hc
    rcases hcases hc with hc | rfl
    · rw [hold hc]
      exact h.uids c hc
    · rw [hnew]
      exact h.uid
  case entry => exact h.entry_nbd hrule
  case nodup =>
    rw [hledger, Multiset.nodup_add]
    refine ⟨(Multiset.nodup_range _).map fun i j hij => (Prod.mk.inj hij).2, h.nodup, ?_⟩
    refine Multiset.disjoint_left.mpr fun hf hmem => ?_
    obtain ⟨i, -, rfl⟩ := Multiset.mem_map.mp hf
    exact Nat.lt_irrefl _ ((h.ledger _ _).mp hmem).1
  case ledger =>
    intro c i
    rw [hledger, Multiset.mem_add, h.ledger, hcreated]
    simp only [Multiset.mem_map, Multiset.mem_range, Prod.mk.injEq]
    constructor
    · rintro (⟨j, hj, rfl, rfl⟩ | ⟨hc, hi⟩)
      · exact ⟨Nat.lt_succ_self _, hj⟩
      · exact ⟨Nat.lt_succ_of_lt hc, by rwa [hext.count hc]⟩
    · rintro ⟨hc, hi⟩
      rcases Nat.lt_succ_iff_lt_or_eq.mp hc with hc | rfl
      · exact Or.inr ⟨hc, by rwa [hext.count hc] at hi⟩
      · exact Or.inl ⟨i, hi, rfl, rfl⟩
  case set =>
    intro c hc
    rcases hcases hc with hc | rfl
    · rw [hold hc, hext.count hc]
      exact h.set c hc
    · rw [System.count, hnew, RequestHost.create_fragmentationSet]
      exact (Finset.filter_true_of_mem fun i _ => hunread i).symm
  case task =>
    rintro task (ht | ht)
    · obtain ⟨j, hlt, rfl⟩ := mem_tasksOf ht
      have htoNat : (UInt32.ofNat j).toNat = j := UInt32.toNat_ofNat_of_lt' (show j < 2 ^ 32 by omega)
      refine ⟨Nat.lt_succ_self _, ?_, ?_, fun hcon => nomatch hcon⟩
      · simp only [htoNat, hnew]
      · simp only [htoNat, System.count, hnew]
        omega
    · exact hext.task (h.task task (Or.inr ht))
  case message =>
    exact fun m hm => hext.message ((h.ledger _ _).mp (mem_ledger_message hm)).1 (h.message m hm)
  case reply => exact fun r hr => hext.reply (h.reply_active hr).1 (h.reply r hr)
  case stream => exact h.stream
  case completed => exact h.completed
  case freed =>
    intro c
    rw [hcreated]
    by_cases hc : c < s.disp.created
    · rw [hext.count hc]
      refine (h.freed c).trans ?_
      simp only [hc, Nat.lt_succ_of_lt hc, true_and]
    · refine iff_of_false (fun hcon => hc ((h.freed c).mp hcon).1) ?_
      rintro ⟨hlt, hpos, hall⟩
      obtain rfl : c = s.disp.created := by omega
      exact hunread 0 (hall 0 hpos)

/-! ### Every step -/

/-- **Every step keeps the invariant**, in an environment that keeps its rules. -/
theorem inv_step {l : Label} (h : Inv s) (hhonest : Honest s l) (hfew : FewActive s l)
    (hpeek : PeeksWhole s l) (hstale : EndsStale s l) (hs : s.step l = some s') : Inv s' := by
  cases l with
  | nbd message => exact inv_nbd h hfew hs
  | async => exact inv_async h hs
  | test k seen => exact inv_test h hstale hs
  | send k junk => exact inv_send h hs
  | answer k header data => exact inv_answer h hhonest hs
  | iot sockfd cuts => exact inv_iot h hpeek hs

end System
end PrivateCloud.Dispatch
