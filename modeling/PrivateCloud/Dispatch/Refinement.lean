import PrivateCloud.Dispatch.Simulation

/-! The distributed server is the local one.

Whatever the pool, the nodes and the sockets do with the fragments, each request is
answered with the bytes that the local server answers it with when it is given the
requests in the order they came in; and with the same bytes again when it is given them
in the order they were answered in. When all of them have been answered, what the
nodes keep is the local server's storage, block by block. -/
namespace PrivateCloud.Dispatch.System
open Nbd Host Local

variable {s s' : System} {ms : List NbdMessage}

/-! ### In the order of the answers -/

/-- The answered requests, in the order they were answered in. -/
def answeredOf (s : System) (ms : List NbdMessage) : List NbdMessage :=
  s.disp.completed.filterMap fun e => ms[e.1]?

/-- The system against the local server that was given the answered requests only. -/
structure InOrder (s : System) (ms : List NbdMessage) : Prop where
  replies : s.disp.completed.map Prod.snd = replies (s.answeredOf ms)
  /-- It is behind by the WRITEs that are outstanding… -/
  settled : ∀ f, (∀ c, Active s c → (s.req c).reqType = NBD_CMD_WRITE →
    ∀ i < s.count c, f ≠ firstBlock (s.req c) + i) →
      block (storageAfter (s.answeredOf ms)) f = block (storageAfter ms) f
  /-- …and has, of an outstanding request's blocks, what the request came in to. -/
  active : ∀ c, Active s c → ∀ i < s.count c,
    block (storageAfter (s.answeredOf ms)) (firstBlock (s.req c) + i) =
      block (storageAfter (ms.take c)) (firstBlock (s.req c) + i)

theorem inOrder_init : InOrder init [] where
  replies := rfl
  settled := fun _ _ => rfl
  active := fun _ hc => absurd hc.1 (Nat.not_lt_zero _)

/-- Steps that answer nothing and take nothing. -/
theorem InOrder.quiet (h : InOrder s ms) (hdisp : s'.disp = s.disp) : InOrder s' ms := by
  have hreq := req_congr hdisp
  have hcount := count_congr hdisp
  have hactive := active_congr hdisp
  have hanswered : s'.answeredOf ms = s.answeredOf ms := by rw [answeredOf, answeredOf, hdisp]
  refine ⟨?_, ?_, ?_⟩
  · rw [hdisp, hanswered]
    exact h.replies
  · rw [hactive, hreq, hcount, hanswered]
    exact h.settled
  · rw [hactive, hreq, hcount, hanswered]
    exact h.active

theorem inOrder_nbd {message : NbdMessage} (h : InOrder s ms) (hsim : Sim s ms)
    (hrule : TakesRequest s (.nbd message)) (hs : s.step (.nbd message) = some s') :
    InOrder s' (ms ++ [message]) := by
  have hlength := hsim.length
  have hnew : s'.req s.disp.created = message.nbdReq := by
    rw [req, host_nbd_new hs]
    rfl
  have hold {c : ℕ} (hc : c < s.disp.created) : s'.req c = s.req c := by
    rw [req, req, host_nbd_old hs hc]
  have hfreed : s'.disp.freed = s.disp.freed := by
    obtain ⟨-, rfl⟩ := nbd_cases hs
    rfl
  have hcompleted : s'.disp.completed = s.disp.completed := by
    obtain ⟨-, rfl⟩ := nbd_cases hs
    rfl
  have hcreated := created_nbd hs
  have hstill {c : ℕ} (hc : Active s c) : Active s' c :=
    ⟨by rw [hcreated]; exact Nat.lt_succ_of_lt hc.1, by rw [hfreed]; exact hc.2⟩
  have hnewActive : Active s' s.disp.created := by
    refine ⟨by rw [hcreated]; exact Nat.lt_succ_self _, ?_⟩
    rw [hfreed, ← Bool.not_eq_true]
    exact fun hf => absurd ((hsim.inv.freed _).mp hf).1 (Nat.lt_irrefl _)
  have hcountOld {c : ℕ} (hc : c < s.disp.created) : s'.count c = s.count c := (extends_nbd hs).count hc
  have hcountNew : s'.count s.disp.created = blocks message.nbdReq := by
    rw [count_eq_blocks, hnew]
  have hanswered : s'.answeredOf (ms ++ [message]) = s.answeredOf ms := by
    rw [answeredOf, answeredOf, hcompleted]
    refine List.filterMap_congr fun e he => ?_
    obtain ⟨m, hget, -⟩ := hsim.done e he
    exact List.getElem?_append_left (List.getElem?_eq_some_iff.mp hget).1
  have hw := hrule.2.1
  -- Blocks of the new request are not those of an outstanding WRITE.
  have hapart {c i j : ℕ} (hc : Active s c) (hwrite : (s.req c).reqType = NBD_CMD_WRITE)
      (hi : i < s.count c) (hj : j < blocks message.nbdReq) :
      firstBlock message.nbdReq + j ≠ firstBlock (s.req c) + i := by
    intro heq
    have hover := (hsim.whole c hc.1).overlap hw (by rwa [← count_eq_blocks]) hj heq.symm
    have hread := (hrule.2.2 c hc hover).1
    rw [hwrite] at hread
    exact absurd hread (by decide)
  constructor
  case replies => rw [hcompleted, hanswered]; exact h.replies
  case settled =>
    intro f hf
    rw [hanswered, storageAfter_snoc, handle_outside hw]
    · refine h.settled f fun c hc hwrite i hi => ?_
      rw [← hold hc.1] at hwrite ⊢
      exact hf c (hstill hc) hwrite i (by rwa [hcountOld hc.1])
    · intro hwrite i hi
      rw [← hnew]
      exact hf _ hnewActive (by rw [hnew]; exact hwrite) i (by rwa [hcountNew])
  case active =>
    intro c hc i hi
    rw [hanswered]
    have hc' : c < s.disp.created + 1 := hcreated ▸ hc.1
    rcases Nat.lt_succ_iff_lt_or_eq.mp hc' with hlt | rfl
    · have hactive : Active s c := ⟨hlt, hfreed ▸ hc.2⟩
      rw [hold hlt, List.take_append_of_le_length (by omega)]
      rw [hcountOld hlt] at hi
      exact h.active c hactive i hi
    · rw [hnew, ← hlength, List.take_left]
      rw [hcountNew] at hi
      exact h.settled _ fun c hc hwrite j hj => hapart hc hwrite hj hi

/-- A reply that is not the last one. -/
theorem InOrder.wait (h : InOrder s ms) (hcompleted : s'.disp.completed = s.disp.completed)
    (hcreated : s'.disp.created = s.disp.created) (hreq : ∀ c, SameRequest (s.host c) (s'.host c)) :
    InOrder s' ms := by
  have hfreed : s'.disp.freed = s.disp.freed := by
    funext c
    rw [Dispatcher.freed, Dispatcher.freed, hcompleted]
  have hactive : Active s' = Active s := by
    funext c
    rw [Active, Active, hcreated, hfreed]
  have htype (c : ℕ) : (s'.req c).reqType = (s.req c).reqType := (hreq c).reqType
  have hfirst (c : ℕ) : firstBlock (s'.req c) = firstBlock (s.req c) := firstBlock_same (hreq c)
  have hcount : s'.count = s.count := funext fun c => (hreq c).count
  have hanswered : s'.answeredOf ms = s.answeredOf ms := by rw [answeredOf, answeredOf, hcompleted]
  refine ⟨?_, fun f hf => ?_, fun c hc i hi => ?_⟩
  · rw [hcompleted, hanswered]
    exact h.replies
  · rw [hanswered]
    refine h.settled f fun c hc hwrite i hi => ?_
    rw [← hfirst]
    exact hf c (hactive ▸ hc) (by rw [htype]; exact hwrite) i (by rwa [hcount])
  · rw [hanswered, hfirst]
    exact h.active c (hactive ▸ hc) i (hcount ▸ hi)

/-- The last reply of a request: the local server is given one more. -/
theorem InOrder.answer (h : InOrder s ms) (hsim : Sim s ms) (hsim' : Sim s' ms) {c : ℕ}
    {bytes : List UInt8} (hc : Active s c)
    (hcompleted : s'.disp.completed = s.disp.completed ++ [(c, bytes)])
    (hcreated : s'.disp.created = s.disp.created) (hreq : ∀ b, SameRequest (s.host b) (s'.host b)) :
    InOrder s' ms := by
  obtain ⟨message, hget, hm, hfirstm, hblocks, hw⟩ := hsim.message hc.1
  have hcount : s'.count = s.count := funext fun b => (hreq b).count
  have htype (b : ℕ) : (s'.req b).reqType = (s.req b).reqType := (hreq b).reqType
  have hfirst (b : ℕ) : firstBlock (s'.req b) = firstBlock (s.req b) := firstBlock_same (hreq b)
  have hanswered : s'.answeredOf ms = s.answeredOf ms ++ [message] := by
    rw [answeredOf, answeredOf, hcompleted, List.filterMap_append]
    simp [hget]
  have hfreed (b : ℕ) : s'.disp.freed b = true ↔ s.disp.freed b = true ∨ b = c := by
    simp [Dispatcher.freed, hcompleted]
  have hactive (b : ℕ) : Active s' b ↔ Active s b ∧ b ≠ c := by
    simp only [Active, hcreated, ← Bool.not_eq_true, hfreed]
    tauto
  have hwrites (hwrite : message.nbdReq.reqType = NBD_CMD_WRITE) :
      (s.req c).reqType = NBD_CMD_WRITE := hm.reqType.trans hwrite
  have hblock {i : ℕ} (hi : i < blocks message.nbdReq) : i < s.count c := by
    rwa [count_eq_blocks, ← hblocks]
  refine ⟨?_, fun f hf => ?_, fun b hb i hi => ?_⟩
  · obtain ⟨message', hget', hbytes⟩ := hsim'.done (c, bytes) (by rw [hcompleted]; simp)
    obtain rfl := Option.some.inj (hget.symm.trans hget')
    have hsame : (handle message (storageAfter (s.answeredOf ms))).1 = bytes := by
      refine Eq.trans ?_ hbytes.symm
      refine handle_congr hw fun i hi => ?_
      rw [hfirstm]
      exact h.active c hc i (hblock hi)
    rw [hcompleted, hanswered, replies_snoc, hsame, List.map_append, h.replies]
    rfl
  · rw [hanswered, storageAfter_snoc]
    by_cases hin : message.nbdReq.reqType = NBD_CMD_WRITE ∧
        ∃ i < blocks message.nbdReq, f = firstBlock message.nbdReq + i
    · obtain ⟨hwrite, i, hi, rfl⟩ := hin
      have hpiece : piece message.nbdReq i = piece (s.req c) i := by
        have hbuf : (s.req c).dataBuf = message.nbdReq.dataBuf :=
          hm.buffer (by rw [hwrite]; decide)
        rw [piece, piece, hbuf]
      rw [handle_write_inside hw hwrite hi, hpiece, hfirstm]
      exact (hsim.writes c hc (hwrites hwrite) i (hblock hi)).symm
    · rw [handle_outside hw fun hwrite i hi heq => hin ⟨hwrite, i, hi, heq⟩]
      refine h.settled f fun b hb hwrite i hi heq => ?_
      by_cases hbc : b = c
      · subst hbc
        refine hin ⟨hm.reqType.symm.trans hwrite, i, ?_, by rw [hfirstm]; exact heq⟩
        rwa [hblocks, ← count_eq_blocks]
      · refine hf b ((hactive b).mpr ⟨hb, hbc⟩) (by rw [htype]; exact hwrite) i (by rwa [hcount]) ?_
        rw [hfirst]
        exact heq
  · obtain ⟨hb, hbc⟩ := (hactive b).mp hb
    rw [hcount] at hi
    rw [hanswered, storageAfter_snoc, hfirst, handle_outside hw]
    · exact h.active b hb i hi
    · intro hwrite j hj heq
      rw [hfirstm] at heq
      have hover := (hsim.whole b hb.1).overlap (hsim.whole c hc.1) (by rwa [← count_eq_blocks])
        (by rwa [← hblocks]) heq
      have hread := (hsim.apart b c hb hc hbc hover).2
      rw [hwrites hwrite] at hread
      exact absurd hread (by decide)

theorem inOrder_iot {sockfd : ℕ} {cuts : ℕ → ℕ} (h : InOrder s ms) (hsim : Sim s ms)
    (hcut : 4 ≤ cuts 0) (hs : s.step (.iot sockfd cuts) = some s') : InOrder s' ms := by
  have hsim' := sim_iot hsim hcut hs
  obtain ⟨r, rest, -, hr, -, rfl⟩ := hsim.inv.iot_cases hcut hs
  obtain ⟨hcreated, hreq⟩ := same_handleReply s r
  obtain ⟨hlt, -, hnew, -⟩ := hsim.inv.reply_active hr
  by_cases hlast : Dispatcher.Last s.disp r.owner r.header
  · have hdone : (s.disp.handleReply r.header.requestUid r.owner r.header r.data).completed =
        s.disp.completed ++
          [(r.owner, nbdRequestDone (consume (s.disp.host r.owner) r.header r.data).nbqReq 0)] := by
      rw [Dispatcher.handleReply_eq]
      exact if_pos hlast
    exact h.answer hsim hsim' ⟨hlt, hnew⟩ hdone hcreated hreq
  · have hwait : (s.disp.handleReply r.header.requestUid r.owner r.header r.data).completed =
        s.disp.completed := by
      rw [Dispatcher.handleReply_eq]
      exact if_neg hlast
    exact h.wait hwait hcreated hreq

theorem InOrder.internal {l : Label} (h : InOrder s ms) (hsim : Sim s ms) (hc : Contract s l)
    (hl : l.takes = []) (hs : s.step l = some s') : InOrder s' ms := by
  cases l with
  | nbd message => cases hl
  | async =>
    obtain ⟨task, rest, -, rfl⟩ := async_cases hs
    exact h.quiet rfl
  | test k seen =>
    obtain ⟨task, -, -, ⟨-, rfl⟩ | ⟨-, rfl⟩⟩ := test_cases hs
    · exact h.quiet rfl
    · exact h.quiet rfl
  | send k junk =>
    obtain ⟨task, command, -, -, -, rfl⟩ := send_cases hs
    exact h.quiet rfl
  | answer k header data =>
    obtain ⟨m, -, rfl⟩ := answer_cases hs
    exact h.quiet rfl
  | iot sockfd cuts => exact inOrder_iot h hsim hc.peeks hs

theorem inOrder_step {l : Label} (h : InOrder s ms) (hsim : Sim s ms) (hc : Contract s l)
    (hs : s.step l = some s') : InOrder s' (ms ++ l.takes) := by
  cases l with
  | nbd message => exact inOrder_nbd h hsim hc.requests hs
  | async | test k seen | send k junk | answer k header data | iot sockfd cuts =>
    show InOrder s' (ms ++ [])
    rw [List.append_nil]
    exact h.internal hsim hc rfl hs

/-! ### What there is left to do -/

/-- Nothing is queued, running, or under way. -/
structure Idle (s : System) : Prop where
  queueing : s.queueing = []
  tasks : s.tasks = []
  wire : s.wire = []
  stream : ∀ sockfd, s.stream sockfd = []

theorem Inv.pending_nil (h : Inv s) (hstream : ∀ sockfd, s.stream sockfd = []) : s.pending = [] := by
  refine List.eq_nil_iff_forall_not_mem.mpr fun r hr => ?_
  have hmem : r ∈ s.pending.filter fun r' => r'.sockfd = r.sockfd := by
    simp [List.mem_filter, hr]
  have hempty := hstream r.sockfd
  rw [h.stream] at hempty
  have hbytes : r.bytes = [] := List.flatMap_eq_nil_iff.mp hempty r hmem
  have hlen := congrArg List.length hbytes
  rw [Reply.bytes, List.length_append, AtlasHeader.store_length] at hlen
  simp [sizeofAtlasHeader] at hlen

/-- With nothing left to do, every request has been answered. -/
theorem Sim.idle_answered (h : Sim s ms) (hidle : Idle s) {c : ℕ} (hc : c < s.disp.created) :
    s.disp.freed c = true := by
  have hunhandled : s.unhandled = 0 := by
    rw [System.unhandled, toSend, hidle.queueing, hidle.tasks, hidle.wire]
    rfl
  have hcount : 0 < s.count c := by
    have := (h.whole c hc).pos
    rw [count_eq_blocks, blocks]
    omega
  refine (h.inv.freed c).mpr ⟨hc, hcount, fun i hi => ?_⟩
  have hmem := (h.inv.ledger c i).mpr ⟨hc, hi⟩
  rw [System.ledger, hunhandled, h.inv.pending_nil hidle.stream] at hmem
  simpa using hmem

/-- A step that takes no request, and is allowed. -/
def Moves (s : System) : Prop :=
  ∃ l s', Contract s l ∧ s.step l = some s' ∧ l.takes = []

theorem async_moves {task : Task} {rest : List Task} (hq : s.queueing = task :: rest) : Moves s := by
  have hc : Contract s .async := ⟨trivial, trivial, trivial, trivial, trivial⟩
  have hs : ∃ s', s.step .async = some s' := by
    simp only [step, async, hq]
    exact ⟨_, rfl⟩
  obtain ⟨s', hs⟩ := hs
  exact ⟨.async, s', hc, hs, rfl⟩

theorem answer_moves {m : Message} {k : ℕ} (hk : s.wire[k]? = some m) : Moves s := by
  have hserves : Serves s (.answer k m.header (m.fetch (s.store m.sockfd))) := by
    intro m' hm'
    obtain rfl := Option.some.inj (hk.symm.trans hm')
    exact ⟨rfl, rfl⟩
  have hc : Contract s (.answer k m.header (m.fetch (s.store m.sockfd))) :=
    ⟨trivial, trivial, hserves, trivial, trivial⟩
  have hs : ∃ s', s.step (.answer k m.header (m.fetch (s.store m.sockfd))) = some s' := by
    simp only [step, answer, hk]
    exact ⟨_, rfl⟩
  obtain ⟨s', hs⟩ := hs
  exact ⟨_, s', hc, hs, rfl⟩

/-- A task's next test, or its next send: the types of the requests all have a command. -/
theorem Sim.task_moves (h : Sim s ms) {task : Task} {k : ℕ} (hk : s.tasks[k]? = some task) :
    Moves s := by
  have hok := h.inv.task task (Or.inr (List.mem_of_getElem? hk))
  obtain ⟨owner, info, i, pc⟩ := task
  cases pc with
  | test =>
    have hlength : SeesLength s (.test k (s.req owner).dataLen) := by
      intro other hother
      obtain rfl := Option.some.inj (hk.symm.trans hother)
      rfl
    have hc : Contract s (.test k (s.req owner).dataLen) :=
      ⟨trivial, trivial, trivial, trivial, hlength⟩
    have hs : ∃ s', s.step (.test k (s.req owner).dataLen) = some s' := by
      simp only [step, test, hk]
      split <;> exact ⟨_, rfl⟩
    obtain ⟨s', hs⟩ := hs
    exact ⟨_, s', hc, hs, rfl⟩
  | body =>
    have hcommand : ∃ command, creators.create info.atlasHeader.type = some command := by
      have hinfo : info = (s.host owner).infoAt i.toNat := hok.info
      have htype : info.atlasHeader.type = (s.req owner).reqType := by
        rw [hinfo, RequestHost.infoAt_eq]
        rfl
      rw [htype]
      rcases h.types owner hok.owner with hread | hwrite
      · exact ⟨.readRequest, by rw [hread]; rfl⟩
      · exact ⟨.writeRequest, by rw [hwrite]; rfl⟩
    obtain ⟨command, hcommand⟩ := hcommand
    have hc : Contract s (.send k fun _ => 0) := ⟨trivial, trivial, trivial, trivial, trivial⟩
    have hs : ∃ s', s.step (.send k fun _ => 0) = some s' := by
      simp only [step, send, hk, hcommand]
      exact ⟨_, rfl⟩
    obtain ⟨s', hs⟩ := hs
    exact ⟨_, s', hc, hs, rfl⟩

theorem Sim.iot_moves (h : Sim s ms) (hq : s.queueing = []) {sockfd : ℕ}
    (hstream : s.stream sockfd ≠ []) : Moves s := by
  have hcut : PeeksWhole s (.iot sockfd fun _ => 4) := Nat.le_refl 4
  have hc : Contract s (.iot sockfd fun _ => 4) := ⟨trivial, trivial, trivial, hcut, trivial⟩
  have hread : ∃ disp socket, s.disp.iotHandle ⟨s.stream sockfd, fun _ => 4⟩ = .ok (disp, socket) := by
    obtain ⟨r, rest, cuts', -, -, hiot⟩ :=
      @Inv.iotHandle s h.inv sockfd hstream (fun _ => 4) (Nat.le_refl 4)
    exact ⟨_, _, hiot⟩
  obtain ⟨disp, socket, hiot⟩ := hread
  have hs : ∃ s', s.step (.iot sockfd fun _ => 4) = some s' := by
    simp only [step, iot, hq, hstream, ne_eq, not_false_eq_true, and_self, if_true, hiot]
    exact ⟨_, rfl⟩
  obtain ⟨s', hs⟩ := hs
  exact ⟨_, s', hc, hs, rfl⟩

/-- **No run gets stuck**: as long as there is something left to do, something can be
done that is neither against the contract nor a new request. -/
theorem Sim.progress (h : Sim s ms) (hbusy : ¬Idle s) : Moves s := by
  cases hq : s.queueing with
  | cons task rest => exact async_moves hq
  | nil =>
    cases ht : s.tasks with
    | cons task rest =>
      have hk : s.tasks[0]? = some task := by rw [ht]; rfl
      exact h.task_moves hk
    | nil =>
      cases hw : s.wire with
      | cons m rest =>
        have hk : s.wire[0]? = some m := by rw [hw]; rfl
        exact answer_moves hk
      | nil =>
        by_contra hnone
        exact hbusy ⟨hq, ht, hw, fun sockfd => not_not.mp fun hne => hnone (h.iot_moves hq hne)⟩

/-! ### How much there is left to do -/

/-- The tests and sends of a task, less its fragments' own. -/
def left (task : Task) : ℕ :=
  match task.pc with
  | .test => 2
  | .body => 1

/-- The steps that are left, at most. -/
def work (s : System) : ℕ :=
  4 * s.toSend.card + 2 * s.wire.length + s.pending.length + 3 * s.queueing.length +
    ((s.tasks : Multiset Task).map left).sum

theorem card_unhandled (s : System) : s.unhandled.card = s.toSend.card + s.wire.length := by
  rw [unhandled, Multiset.card_add, Multiset.card_map, Multiset.coe_card]

theorem left_eq {k : ℕ} {task : Task} (hk : s.tasks[k]? = some task) :
    ((s.tasks : Multiset Task).map left).sum =
      left task + ((s.tasks.eraseIdx k : Multiset Task).map left).sum := by
  rw [Bag.coe_eq_cons hk, Multiset.map_cons, Multiset.sum_cons]

theorem left_set {k : ℕ} {task : Task} (hk : s.tasks[k]? = some task) (task' : Task) :
    ((s.tasks.set k task' : Multiset Task).map left).sum =
      left task' + ((s.tasks.eraseIdx k : Multiset Task).map left).sum := by
  rw [Bag.coe_set hk, Multiset.map_cons, Multiset.sum_cons]

theorem work_async (hs : s.step .async = some s') : s'.work < s.work := by
  have hcard := congrArg Multiset.card (unhandled_async hs)
  rw [card_unhandled, card_unhandled] at hcard
  obtain ⟨task, rest, hq, rfl⟩ := async_cases hs
  have hleft : left task ≤ 2 := by
    unfold left
    split <;> omega
  simp only [work, hq, List.length_cons, ← Multiset.cons_coe, Multiset.map_cons, Multiset.sum_cons]
  simp only at hcard
  omega

theorem Inv.work_test {k : ℕ} {seen : UInt32} (h : Inv s) (hrule : EndsStale s (.test k seen))
    (hs : s.step (.test k seen) = some s') : s'.work < s.work := by
  have hcard := congrArg Multiset.card (h.unhandled_test hrule hs)
  rw [card_unhandled, card_unhandled] at hcard
  obtain ⟨task, hk, hpc, hend⟩ := test_cases hs
  have hleft : left task = 2 := by rw [left, hpc]
  have hbody : left {task with pc := .body} = 1 := rfl
  have htasks := left_eq hk
  have hset := left_set hk {task with pc := .body}
  obtain ⟨-, rfl⟩ | ⟨-, rfl⟩ := hend
  · simp only [work] at hcard ⊢
    omega
  · simp only [work] at hcard ⊢
    omega

theorem Inv.work_send {k : ℕ} {junk : Memory} (h : Inv s) (hs : s.step (.send k junk) = some s') :
    s'.work < s.work := by
  have hcard := congrArg Multiset.card (h.unhandled_send hs)
  rw [card_unhandled, card_unhandled] at hcard
  obtain ⟨task, command, hk, hpc, -, rfl⟩ := send_cases hs
  have hleft : left task = 1 := by rw [left, hpc]
  have htest : left ⟨task.owner, task.info.advance, task.i + numOfIot, .test⟩ = 2 := rfl
  have htasks := left_eq hk
  have hset := left_set hk ⟨task.owner, task.info.advance, task.i + numOfIot, .test⟩
  simp only [work, List.length_cons] at hcard ⊢
  omega

theorem work_answer {k : ℕ} {header : AtlasHeader} {data : List UInt8}
    (hs : s.step (.answer k header data) = some s') : s'.work < s.work := by
  obtain ⟨m, hk, hs'⟩ := answer_cases hs
  have hcard := congrArg Multiset.card (unhandled_answer hk hs)
  rw [Multiset.card_cons, card_unhandled, card_unhandled] at hcard
  have hlt : k < s.wire.length := (List.getElem?_eq_some_iff.mp hk).1
  have hwire : s'.wire.length + 1 = s.wire.length := by
    rw [hs', List.length_eraseIdx_of_lt hlt]
    omega
  subst hs'
  simp only [work, List.length_append, List.length_singleton] at hcard hwire ⊢
  omega

theorem Inv.work_iot {sockfd : ℕ} {cuts : ℕ → ℕ} (h : Inv s) (hcut : 4 ≤ cuts 0)
    (hs : s.step (.iot sockfd cuts) = some s') : s'.work < s.work := by
  have hcard := congrArg Multiset.card (h.unhandled_iot hcut hs)
  rw [card_unhandled, card_unhandled] at hcard
  obtain ⟨r, rest, hfilter, -, -, rfl⟩ := h.iot_cases hcut hs
  have hpending := congrArg Multiset.card (Bag.coe_eraseP hfilter)
  rw [Multiset.card_cons, Multiset.coe_card, Multiset.coe_card] at hpending
  simp only [work] at hcard ⊢
  omega

/-- **A step that takes no request leaves less to do.** -/
theorem Sim.work_step {l : Label} (h : Sim s ms) (hc : Contract s l) (hl : l.takes = [])
    (hs : s.step l = some s') : s'.work < s.work := by
  obtain ⟨-, hstale⟩ := hc.rules h.inv
  cases l with
  | nbd message => cases hl
  | async => exact work_async hs
  | test k seen => exact h.inv.work_test hstale hs
  | send k junk => exact h.inv.work_send hs
  | answer k header data => exact work_answer hs
  | iot sockfd cuts => exact h.inv.work_iot hc.peeks hs

/-! ### Runs -/

/-- The requests a run took, in the order they came in. -/
def arrivals (trace : List (System × Label)) : List NbdMessage :=
  (trace.map Prod.snd).flatMap Label.takes

/-- The run lemma. -/
theorem run_sim {trace : List (System × Label)} (run : machine.Run init trace s)
    (hc : Machine.Meets Contract trace) : Sim s (arrivals trace) ∧ InOrder s (arrivals trace) := by
  rw [arrivals, List.flatMap_eq_foldl]
  refine run.simulation (R := fun s ms => Sim s ms ∧ InOrder s ms) (a := []) ⟨sim_init, inOrder_init⟩ ?_ hc
  rintro t l u ms ⟨hsim, horder⟩ hl hs
  exact ⟨sim_step hsim hl hs, inOrder_step horder hsim hl hs⟩

/-- The system is the local server that was given these requests. -/
structure Refines (s : System) (ms : List NbdMessage) : Prop where
  /-- A request is answered at most once, and as the local server answers it when the
  requests are given to it in the order they came in… -/
  once : (s.disp.completed.map Prod.fst).Nodup
  arrival : ∀ e ∈ s.disp.completed, (replies ms)[e.1]? = some e.2
  /-- …or in the order they were answered in. -/
  completion : s.disp.completed.map Prod.snd = replies (s.answeredOf ms)
  /-- Work that is left can be done, ends when no more requests come in, and when none
  is left all are answered. -/
  progress : Idle s ∨ Moves s
  ends : ∀ trace t, machine.Run s trace t →
    Machine.Meets (fun u l => Contract u l ∧ l.takes = []) trace → trace.length ≤ s.work
  all : Idle s → ∀ c < ms.length, c ∈ s.disp.completed.map Prod.fst
  /-- With all answered, block `f` lies on node `f % 8` at `f * 128`. -/
  stores : (∀ c < ms.length, c ∈ s.disp.completed.map Prod.fst) →
    ∀ f < storageSize / 1024, (s.store (f % 8 + 1)).read (f * 128) 1024 =
      (storageAfter ms).read (f * 1024) 1024

theorem Sim.refines (h : Sim s ms) (horder : InOrder s ms) : Refines s ms where
  once := h.inv.completed
  arrival := by
    intro e he
    obtain ⟨message, hget, hreply⟩ := h.done e he
    rw [replies_getElem? hget, hreply]
  completion := horder.replies
  progress := by
    by_cases hidle : Idle s
    · exact Or.inl hidle
    · exact Or.inr (h.progress hidle)
  ends := by
    intro trace t run hc
    have hbound := run.bounded (P := fun u => Sim u ms) (m := work) h ?_ hc
    · exact Nat.le_trans (Nat.le_add_left _ _) hbound.2
    · rintro u l u' hsim ⟨hc, hl⟩ hs
      exact ⟨hsim.internal hc hl hs, hsim.work_step hc hl hs⟩
  all := by
    intro hidle c hc
    have hfreed := h.idle_answered hidle (h.length ▸ hc)
    rwa [Dispatcher.freed, decide_eq_true_eq] at hfreed
  stores := by
    intro hall f hf
    refine h.settled f hf fun c i hmem _ => ?_
    obtain ⟨⟨hc, hfreed⟩, -⟩ := h.inv.unhandled_active hmem
    rw [Dispatcher.freed, decide_eq_false_iff_not] at hfreed
    exact absurd (hall c (h.length ▸ hc)) hfreed

/-- **The distributed server refines the local server**, over every interleaving of
reactor, tasks and nodes. -/
theorem system_refines_local {trace : List (System × Label)} (run : machine.Run init trace s)
    (hc : Machine.Meets Contract trace) : Refines s (arrivals trace) := by
  obtain ⟨hsim, horder⟩ := run_sim run hc
  exact hsim.refines horder

instance (s : System) : (l : Label) → Decidable (TakesRequest s l)
  | .nbd message =>
    decidable_of_iff ((message.nbdReq.reqType = NBD_CMD_READ ∨ message.nbdReq.reqType = NBD_CMD_WRITE) ∧
        WholeBlocks message.nbdReq ∧ ∀ c < s.disp.created, s.disp.freed c = false →
          Overlap (s.req c) message.nbdReq →
            (s.req c).reqType = NBD_CMD_READ ∧ message.nbdReq.reqType = NBD_CMD_READ)
      ⟨fun ⟨h1, h2, h3⟩ => ⟨h1, h2, fun c hc => h3 c hc.1 hc.2⟩,
        fun ⟨h1, h2, h3⟩ => ⟨h1, h2, fun c hc hf => h3 c ⟨hc, hf⟩⟩⟩
  | .async | .test _ _ | .send _ _ | .answer _ _ _ | .iot _ _ => isTrue trivial

instance (s : System) : (l : Label) → Decidable (Serves s l)
  | .answer k header data => inferInstanceAs (Decidable (∀ m ∈ s.wire[k]?,
      header = m.header ∧ data = m.fetch (s.store m.sockfd)))
  | .nbd _ | .async | .test _ _ | .send _ _ | .iot _ _ => isTrue trivial

instance (s : System) : (l : Label) → Decidable (SeesLength s l)
  | .test k seen => inferInstanceAs (Decidable (∀ task ∈ s.tasks[k]?, seen = (s.req task.owner).dataLen))
  | .nbd _ | .async | .send _ _ | .answer _ _ _ | .iot _ _ => isTrue trivial

/-- What a node has for message `k`: the header it came with, and the data. -/
def reply (s : System) (k : ℕ) : AtlasHeader × List UInt8 :=
  match s.wire[k]? with
  | some m => (m.header, m.fetch (s.store m.sockfd))
  | none => (⟨0, 0, 0, 0, 0, 0⟩, [])

theorem serves_reply (s : System) (k : ℕ) : Serves s (.answer k (s.reply k).1 (s.reply k).2) := by
  intro m hk
  have hk : s.wire[k]? = some m := hk
  simp only [reply, hk, and_self]

/-- A node's answer, filled in. -/
def served (s : System) : Label → Label
  | .answer k _ _ => .answer k (s.reply k).1 (s.reply k).2
  | l => l

theorem serves_served (s : System) (l : Label) : Serves s (served s l) := by
  cases l with
  | answer k header data => exact s.serves_reply k
  | _ => trivial

/-- The node of message `k` answers. -/
def answers (k : ℕ) : Label := .answer k ⟨0, 0, 0, 0, 0, 0⟩ []

/-- A WRITE of two blocks and, when it is answered, a READ of them, their nodes answering in
one order and being read in the other. -/
def writeThenRead : List Label :=
  [.nbd ⟨⟨NBD_CMD_WRITE, 2048, 0, fun _ => 7⟩, ⟨0, 0, []⟩⟩, .async, .async, .test 0 2048, .test 1 2048,
    .send 0 fun _ => 0, .send 1 fun _ => 0, answers 0, answers 0, .test 0 2048, .test 0 2048,
    .iot 2 fun _ => 24, .iot 1 fun _ => 24,
    .nbd ⟨⟨NBD_CMD_READ, 2048, 0, fun _ => 0⟩, ⟨0, 0, []⟩⟩, .async, .async, .test 0 2048, .test 1 2048,
    .send 0 fun _ => 0, .send 1 fun _ => 0, answers 1, answers 0, .test 0 2048, .test 0 2048,
    .iot 1 fun _ => 24, .iot 2 fun _ => 24]

theorem refines_writeThenRead : ∃ trace s, machine.Run init trace s ∧ (arrivals trace).length = 2 ∧
    s.disp.completed.map Prod.fst = [0, 1] ∧ Refines s (arrivals trace) := by
  obtain ⟨trace, s, run, hserves, h⟩ := Machine.run_of_drive machine served init writeThenRead
    (fun e => decide ((∀ x ∈ e.1, TakesRequest x.1 x.2 ∧ x.1.disp.created < 2 ^ 32 ∧
      PeeksWhole x.1 x.2 ∧ SeesLength x.1 x.2) ∧ e.2.disp.completed.map Prod.fst = [0, 1] ∧
        (arrivals e.1).length = 2)) (by decide +kernel)
  obtain ⟨hall, hdone, htwo⟩ := of_decide_eq_true h
  have hc : Machine.Meets Contract trace := fun e he =>
    ⟨(hall e he).1, fewActive_of_lt (hall e he).2.1, hserves Serves serves_served e he,
      (hall e he).2.2.1, (hall e he).2.2.2⟩
  exact ⟨trace, s, run, htwo, hdone, system_refines_local run hc⟩

end PrivateCloud.Dispatch.System
