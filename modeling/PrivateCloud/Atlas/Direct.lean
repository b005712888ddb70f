import PrivateCloud.Atlas.Device

/-! The server with one node and no pool: `atlas_main.cpp`.

`NbdHandle` sends the message itself, so the messages reach the node in the order of the
requests; the node handles them in that order and its replies come back in it. Everything
else is the pooled server's: the header, `IotHandle`, the request under the address of its
message. What the handler does is what the pool does with a task that it runs at once
(`nbdHandle_pooled`), so what holds of the pooled server holds of this one.

More holds of it: it answers the requests in the order they came in, each as the local
server does (`answers_in_order`), whatever they are and however many are outstanding. -/
namespace PrivateCloud.Atlas.Direct
open Nbd Local Server

/-- `NbdHandle`: no task is made of the message. -/
def nbdHandle (s : Server) (message : NbdMessage) (address : UInt64) (alarmUid : UInt32) :
    Option Server :=
  if s.heap address = none then
    some { s with
      heap := Function.update s.heap address (some (s.created, message))
      created := s.created + 1
      wire := ⟨s.created, convertToAtlas address alarmUid message.nbdReq,
        if message.nbdReq.reqType = NBD_CMD_WRITE then
          message.nbdReq.dataBuf.read 0 message.nbdReq.dataLen.toNat
        else []⟩ :: s.wire
      request := Function.update s.request s.created message }
  else none

inductive Label where
  /-- `NbdHandle`, the message allocated at `address`. -/
  | nbd (message : NbdMessage) (address : UInt64) (alarmUid : UInt32)
  /-- The node answers the message that it has had for longest. -/
  | answer (header : AtlasHeader) (data : List UInt8)
  | iot (cuts : ℕ → ℕ)

/-- Messages are kept latest first. -/
def oldest (s : System) : ℕ := s.server.wire.length - 1

def step (s : System) : Label → Option System
  | .nbd message address alarmUid =>
    (nbdHandle s.server message address alarmUid).map fun server => {s with server := server}
  | .answer header data => s.step (.answer (oldest s) header data)
  | .iot cuts => s.step (.iot cuts)

def machine (storage : Memory) : Machine System Label := ⟨System.init storage, step⟩

/-- The node serves, and is asked for nothing its `m_iotOffset` cannot name. -/
def Serves (s : System) : Label → Prop
  | .nbd message _ _ => message.nbdReq.offset.toNat < 2 ^ 32
  | .answer header data => System.Serves s (.answer (oldest s) header data)
  | .iot _ => True

instance (s : System) : (l : Label) → Decidable (Serves s l)
  | .nbd message _ _ => inferInstanceAs (Decidable (message.nbdReq.offset.toNat < 2 ^ 32))
  | .answer header data => inferInstanceAs (Decidable (System.Serves s (.answer (oldest s) header data)))
  | .iot _ => isTrue trivial

/-- The requests a run took, in the order they came in. -/
def arrivals (trace : List (System × Label)) : List NbdMessage :=
  trace.filterMap fun e =>
    match e.2 with
    | .nbd message _ _ => some message
    | .answer _ _ | .iot _ => none

/-! ### The pool, skipped -/

variable {storage : Memory} {s s' : System}

/-- **A task that is run at once** is what the handler does itself. -/
theorem nbdHandle_pooled (s : Server) (message : NbdMessage) (address : UInt64) (alarmUid : UInt32) :
    nbdHandle s message address alarmUid = (s.step (.nbd message address alarmUid)).bind fun s =>
      (s.step (.prepare 0)).bind fun s => s.step (.send 0) := by
  by_cases hfree : s.heap address = none
  · simp only [nbdHandle, Server.step, Server.nbdHandle, if_pos hfree, Option.bind_some, Server.prepare,
      Server.send, List.getElem?_cons_zero, Function.update_self, List.set_cons_zero]
    by_cases hwrite : message.nbdReq.reqType = NBD_CMD_WRITE
    · simp [payload, gather, hwrite]
    · simp [payload, gather, hwrite]
  · simp only [nbdHandle, Server.step, Server.nbdHandle, if_neg hfree, Option.bind_none]

theorem nbd_cases {message : NbdMessage} {address : UInt64} {alarmUid : UInt32}
    (h : step s (.nbd message address alarmUid) = some s') :
    nbdHandle s.server message address alarmUid = some s'.server ∧ s'.store = s.store := by
  obtain ⟨server, hserver, rfl⟩ := Option.map_eq_some_iff.mp h
  exact ⟨hserver, rfl⟩

theorem nbdHandle_cases {s s' : Server} {message : NbdMessage} {address : UInt64} {alarmUid : UInt32}
    (h : nbdHandle s message address alarmUid = some s') : ∃ payload, s' = { s with
      heap := Function.update s.heap address (some (s.created, message))
      created := s.created + 1
      wire := ⟨s.created, convertToAtlas address alarmUid message.nbdReq, payload⟩ :: s.wire
      request := Function.update s.request s.created message } := by
  simp only [nbdHandle] at h
  split at h
  case isTrue => exact ⟨_, (Option.some.inj h).symm⟩
  case isFalse => cases h

theorem kept_nbdHandle {s s' : Server} {message : NbdMessage} {address : UInt64} {alarmUid : UInt32}
    (h : System.Kept s) (hsmall : message.nbdReq.offset.toNat < 2 ^ 32)
    (hs : nbdHandle s message address alarmUid = some s') : System.Kept s' := by
  rw [nbdHandle_pooled] at hs
  obtain ⟨s₁, hnbd, hs⟩ := Option.bind_eq_some_iff.mp hs
  obtain ⟨s₂, hprepare, hsend⟩ := Option.bind_eq_some_iff.mp hs
  exact System.kept_send (System.kept_prepare (System.kept_nbd h hsmall hnbd) hprepare) hsend

/-! ### First in, first out -/

/-- The requests that the node has handled. -/
def handled (s : System) : ℕ := s.server.completed.length + s.server.pending.length

/-- The server against the requests it was given. -/
structure InOrder (storage : Memory) (s : System) (ms : List NbdMessage) : Prop where
  kept : System.Kept s.server
  created : s.server.created = ms.length
  request : ∀ c message, ms[c]? = some message → s.server.request c = message
  fifo : s.server.completed.map Prod.fst ++ (s.server.pending.map Message.id ++
    (s.server.wire.map Message.id).reverse) = List.range s.server.created
  store : s.store = (Local.run storage (ms.take (handled s))).2
  replies : s.server.completed.map Prod.snd ++ s.server.pending.map (fun r =>
    System.answerTo (s.server.request r.id) r.payload) = (Local.run storage (ms.take (handled s))).1

theorem inOrder_init (storage : Memory) : InOrder storage (System.init storage) [] where
  kept := System.kept_init
  created := rfl
  request := nofun
  fifo := rfl
  store := rfl
  replies := rfl

variable {ms : List NbdMessage}

theorem InOrder.handled_le (h : InOrder storage s ms) : handled s ≤ ms.length := by
  have hlen := congrArg List.length h.fifo
  simp only [List.length_append, List.length_map, List.length_reverse, List.length_range] at hlen
  rw [handled, ← h.created]
  omega

theorem inOrder_nbd {message : NbdMessage} {address : UInt64} {alarmUid : UInt32} (h : InOrder storage s ms)
    (hsmall : message.nbdReq.offset.toNat < 2 ^ 32)
    (hs : step s (.nbd message address alarmUid) = some s') : InOrder storage s' (ms ++ [message]) := by
  obtain ⟨hserver, hstore⟩ := nbd_cases hs
  have hkept := kept_nbdHandle h.kept hsmall hserver
  obtain ⟨payload, hs'⟩ := nbdHandle_cases hserver
  have htake : (ms ++ [message]).take (handled s) = ms.take (handled s) :=
    List.take_append_of_le_length h.handled_le
  have hhandled : handled s' = handled s := by rw [handled, hs', handled]
  refine ⟨hkept, ?_, fun c m hc => ?_, ?_, ?_, ?_⟩
  · rw [hs', List.length_append, List.length_singleton, ← h.created]
  · rw [hs']
    by_cases hlt : c < ms.length
    · rw [List.getElem?_append_left hlt] at hc
      have hne : c ≠ s.server.created := by
        rw [h.created]
        omega
      exact (Function.update_of_ne hne _ _).trans (h.request c m hc)
    · obtain ⟨hlt', -⟩ := List.getElem?_eq_some_iff.mp hc
      obtain rfl : c = ms.length := by
        rw [List.length_append, List.length_singleton] at hlt'
        omega
      obtain rfl : message = m := by simpa using hc
      rw [← h.created]
      exact Function.update_self ..
  · rw [hs']
    simp only [List.map_cons, List.reverse_cons, List.range_succ]
    rw [← List.append_assoc _ _ [s.server.created], ← List.append_assoc, h.fifo]
  · rw [hhandled, htake, hstore, h.store]
  · rw [hhandled, htake, ← h.replies, hs']
    congr 1
    refine List.map_congr_left fun r hr => ?_
    have hlt := h.kept.inv.id_lt (mem_ledger_reply hr)
    dsimp only
    rw [Function.update_of_ne (Nat.ne_of_lt hlt)]

/-- What stands behind the first `n` numbers is `n`. -/
theorem range_split {front back : List ℕ} {a n : ℕ} (h : front ++ a :: back = List.range n) :
    a = front.length := by
  have hget := congrArg (fun l => l[front.length]?) h
  simp only [List.getElem?_append_right (Nat.le_refl _), Nat.sub_self, List.getElem?_cons_zero] at hget
  obtain ⟨_, heq⟩ := List.getElem?_eq_some_iff.mp hget.symm
  rw [List.getElem_range] at heq
  exact heq.symm

/-- **The node handles the next request**, and does with it what the local server does. -/
theorem inOrder_answer {header : AtlasHeader} {data : List UInt8} (h : InOrder storage s ms)
    (hrule : Serves s (.answer header data)) (hs : step s (.answer header data) = some s') :
    InOrder storage s' ms := by
  have hs : System.step s (.answer (oldest s) header data) = some s' := hs
  have hrule : System.Serves s (.answer (oldest s) header data) := hrule
  have hkept := System.kept_step h.kept hrule hs
  obtain ⟨hserver, hstore⟩ := System.step_cases hs
  obtain ⟨m, hk, hs'⟩ := answer_cases hserver
  obtain ⟨-, rfl⟩ := hrule m hk
  have hmem := List.mem_of_getElem? hk
  have hwire : s.server.wire = s.server.wire.dropLast ++ [m] := by
    refine (List.dropLast_concat_getLast (List.ne_nil_of_mem hmem)).symm.trans ?_
    rw [oldest, ← List.getLast?_eq_getElem?] at hk
    rw [List.getLast_of_getLast?_eq_some hk]
  have hfifo := h.fifo
  rw [hwire, List.map_append, List.reverse_append] at hfifo
  -- What has waited longest is the first that has not been handled.
  have hid : m.id = handled s := by
    rw [← List.append_assoc] at hfifo
    have hfront := range_split hfifo
    rwa [List.length_append, List.length_map, List.length_map] at hfront
  have hlt : handled s < ms.length := by
    rw [← h.created, ← hid]
    exact h.kept.inv.id_lt (mem_ledger_message hmem)
  have hget : ms[handled s]? = some (s.server.request m.id) := by
    rw [hid, h.request _ _ (List.getElem?_eq_getElem hlt)]
    exact List.getElem?_eq_getElem hlt
  have htake : ms.take (handled s + 1) = ms.take (handled s) ++ [s.server.request m.id] := by
    rw [List.take_add_one, hget]
    rfl
  have hok := h.kept.inv.message m hmem
  obtain ⟨hoffset, hpayload⟩ := h.kept.wire m hmem
  have hhandle : Local.handle (s.server.request m.id) s.store =
      (System.answerTo (s.server.request m.id) (m.fetch s.store), m.stores s.store) :=
    System.handle_answer (h.kept.small _ (h.kept.inv.id_lt (mem_ledger_message hmem))) hok.type hok.len
      hoffset hpayload
  have hhandled : handled s' = handled s + 1 := by
    rw [handled, hs', handled, List.length_append, List.length_singleton, Nat.add_assoc]
  refine ⟨hkept, ?_, ?_, ?_, ?_, ?_⟩
  · rw [hs']
    exact h.created
  · rw [hs']
    exact h.request
  · rw [hs']
    simp only [oldest, List.eraseIdx_length_sub_one, List.map_append, List.map_singleton]
    rw [← hfifo]
    simp
  · rw [hhandled, htake, run_snoc, ← h.store, hhandle, hstore]
    simp only [System.storeAfter, hk]
  · rw [hhandled, htake, run_snoc, ← h.replies, ← h.store, hhandle, hs']
    simp

theorem inOrder_iot {cuts : ℕ → ℕ} (h : InOrder storage s ms) (hs : step s (.iot cuts) = some s') :
    InOrder storage s' ms := by
  have hs : System.step s (.iot cuts) = some s' := hs
  obtain ⟨hserver, hstore⟩ := System.step_cases hs
  have hkept := System.kept_iot h.kept hserver
  obtain ⟨r, rest, socket, hpending, -, hs'⟩ := h.kept.iot_cases hserver
  have hhandled : handled s' = handled s := by
    rw [handled, hs', handled, hpending]
    simp only [List.length_append, List.length_cons, List.length_nil]
    omega
  have hfifo := h.fifo
  have hreplies := h.replies
  rw [hpending] at hfifo hreplies
  refine ⟨hkept, ?_, ?_, ?_, ?_, ?_⟩
  · rw [hs']
    exact h.created
  · rw [hs']
    exact h.request
  · rw [hs', ← hfifo]
    simp
  · rw [hhandled, hstore]
    exact h.store
  · rw [hhandled, ← hreplies, hs']
    simp [System.answerTo]

/-! ### The runs -/

theorem arrivals_snoc (trace : List (System × Label)) (t : System) (l : Label) :
    arrivals (trace ++ [(t, l)]) = arrivals trace ++ arrivals [(t, l)] :=
  List.filterMap_append

theorem inOrder_step {l : Label} (h : InOrder storage s ms) (hrule : Serves s l) (hs : step s l = some s') :
    InOrder storage s' (ms ++ arrivals [(s, l)]) := by
  cases l with
  | nbd message address alarmUid => exact inOrder_nbd h hrule hs
  | answer header data =>
    have hnone : arrivals [(s, .answer header data)] = [] := rfl
    rw [hnone, List.append_nil]
    exact inOrder_answer h hrule hs
  | iot cuts =>
    have hnone : arrivals [(s, .iot cuts)] = [] := rfl
    rw [hnone, List.append_nil]
    exact inOrder_iot h hs

theorem run_inOrder {trace : List (System × Label)}
    (run : (machine storage).Run (System.init storage) trace s)
    (hrule : Machine.Meets Serves trace) : InOrder storage s (arrivals trace) := by
  induction run with
  | nil => exact inOrder_init storage
  | snoc _ hs ih =>
    obtain ⟨htrace, hlast⟩ := Machine.meets_snoc.mp hrule
    rw [arrivals_snoc]
    exact inOrder_step (ih htrace) hlast hs

/-- A step that takes no request and that the node may make. -/
def Moves (s : System) : Prop :=
  ∃ l, Serves s l ∧ arrivals [(s, l)] = [] ∧ (step s l).isSome

/-- As long as a request is not answered, the node or the server can go on. -/
theorem InOrder.progress (h : InOrder storage s ms) (hmore : s.server.completed.length < ms.length) :
    Moves s := by
  by_cases hwire : s.server.wire = []
  · have hlen := congrArg List.length h.fifo
    simp only [hwire, List.length_append, List.length_map, List.length_reverse, List.length_range,
      List.length_nil, h.created] at hlen
    have hstream : s.server.stream ≠ [] := by
      rw [h.kept.inv.stream]
      cases hpending : s.server.pending with
      | nil =>
        rw [hpending, List.length_nil] at hlen
        omega
      | cons r rest =>
        intro hnil
        have hnone := congrArg List.length hnil
        simp only [List.flatMap_cons, Message.bytes, List.length_append, AtlasHeader.store_length,
          sizeofAtlasHeader, List.length_nil] at hnone
        omega
    obtain ⟨r, rest, cuts', -, hiot⟩ := h.kept.inv.iotHandle hstream fun _ => 1
    refine ⟨.iot fun _ => 1, trivial, rfl, ?_⟩
    simp only [step, System.step, Server.step, Server.iot, if_neg hstream, hiot, Option.map_some,
      Option.isSome_some]
  · obtain ⟨m, hm⟩ : ∃ m, s.server.wire[oldest s]? = some m := by
      rw [oldest, ← List.getLast?_eq_getElem?]
      exact ⟨_, List.getLast?_eq_some_getLast hwire⟩
    refine ⟨.answer m.header (m.fetch s.store), fun m' hm' => ?_, rfl, ?_⟩
    · obtain rfl := Option.some.inj (hm.symm.trans hm')
      exact ⟨rfl, rfl⟩
    · simp only [step, System.step, Server.step, Server.answer, hm, Option.map_some,
        Option.isSome_some]

/-- The server is the local server, as far as it has come. -/
structure Answers (storage : Memory) (s : System) (ms : List NbdMessage) : Prop where
  order : s.server.completed.map Prod.fst = List.range s.server.completed.length
  replies : s.server.completed.map Prod.snd = (Local.run storage ms).1.take s.server.completed.length
  /-- What the node has handled is what it was sent first. -/
  store : s.store = (Local.run storage (ms.take (ms.length - s.server.wire.length))).2
  progress : s.server.completed.length < ms.length → Moves s

/-- **First come, first served.** The requests are answered in the order they came in, each
as the local server answers it, and the node's store is the local server's storage; no run
gets stuck before all of them are answered. -/
theorem answers_in_order {trace : List (System × Label)}
    (run : (machine storage).Run (System.init storage) trace s)
    (hrule : Machine.Meets Serves trace) : Answers storage s (arrivals trace) := by
  have h := run_inOrder run hrule
  have hlen := congrArg List.length h.fifo
  simp only [List.length_append, List.length_map, List.length_reverse, List.length_range, h.created]
    at hlen
  refine ⟨?_, ?_, ?_, h.progress⟩
  · have hprefix := congrArg (List.take s.server.completed.length) h.fifo
    rw [List.take_left' (List.length_map ..), List.take_range, h.created] at hprefix
    rwa [Nat.min_eq_left (by omega)] at hprefix
  · have hprefix := congrArg (List.take s.server.completed.length) h.replies
    rw [List.take_left' (List.length_map ..), run_take, List.take_take] at hprefix
    have hle : s.server.completed.length ≤ handled s := Nat.le_add_right _ _
    rwa [Nat.min_eq_left hle] at hprefix
  · have hhandled : handled s = (arrivals trace).length - s.server.wire.length := by
      rw [handled]
      omega
    rw [← hhandled]
    exact h.store

/-- Two overlapping WRITEs and a READ of both and of the byte behind them, all outstanding at
once. -/
theorem answers_in_order_overlapping : ∃ trace s,
    (machine fun _ => 3).Run (System.init fun _ => 3) trace s ∧ (arrivals trace).length = 3 ∧
    s.server.completed.length = 3 ∧ Answers (fun _ => 3) s (arrivals trace) := by
  obtain ⟨trace, s, run, h⟩ := (machine fun _ => 3).run_of_replay (System.init fun _ => 3)
    [.nbd ⟨⟨NBD_CMD_WRITE, 2, 0, fun _ => 9⟩, ⟨0, 0, []⟩⟩ 64 0,
      .nbd ⟨⟨NBD_CMD_WRITE, 2, 1, fun _ => 5⟩, ⟨0, 0, []⟩⟩ 96 0,
      .nbd ⟨⟨NBD_CMD_READ, 4, 0, fun _ => 0⟩, ⟨0, 0, []⟩⟩ 128 0,
      .answer ⟨64, 0, 0, NBD_CMD_WRITE, 2⟩ [], .answer ⟨96, 0, 1, NBD_CMD_WRITE, 2⟩ [],
      .answer ⟨128, 0, 0, NBD_CMD_READ, 4⟩ [9, 5, 5, 3], .iot fun _ => 1, .iot fun _ => 1, .iot fun _ => 1]
    (fun e => decide (Machine.Meets Serves e.1 ∧ (arrivals e.1).length = 3 ∧
      e.2.server.completed.length = 3)) (by decide +kernel)
  obtain ⟨hrule, hthree, hdone⟩ := of_decide_eq_true h
  exact ⟨trace, s, run, hthree, hdone, answers_in_order run hrule⟩

end PrivateCloud.Atlas.Direct
