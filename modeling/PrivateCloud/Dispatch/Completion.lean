import PrivateCloud.Dispatch.Invariant

/-! The dispatcher's books are right in every state that a run reaches.

The uids in the map, the sets and the calls of `NbdRequestDone` say between them which
requests are unanswered and what each of them waits for. `completion_invariant` holds
them to that, for READs and WRITEs of whole fragments and nodes that answer each message
once, over any interleaving, provided two things the source leaves to chance: that the
uid of a reply is there whole when it is peeked, and that a loop condition which reads a
request that was freed under it ends its loop. `outlived_task` is a run where the second
fails: a fragment nobody asked for is sent, and answered, under a uid that is gone. -/
namespace PrivateCloud.Dispatch.System
open Nbd Host

variable {s s' : System}

/-- A READ or WRITE of whole fragments, at least one. -/
def WholeFragments (message : NbdMessage) : Prop :=
  (message.nbdReq.reqType = NBD_CMD_READ ∨ message.nbdReq.reqType = NBD_CMD_WRITE) ∧
    0 < message.nbdReq.dataLen.toNat ∧ message.nbdReq.dataLen.toNat % 1024 = 0

def SendsWholeFragments (_ : System) : Label → Prop
  | .nbd message => WholeFragments message
  | _ => True

/-- What is assumed of client and nodes. -/
structure Assumed (s : System) (l : Label) : Prop where
  requests : SendsWholeFragments s l
  honest : Honest s l
  few : FewActive s l

/-- What the code leaves to chance. -/
structure Lucky (s : System) (l : Label) : Prop where
  peeks : PeeksWhole s l
  stale : EndsStale s l

/-- The books of the dispatcher. -/
structure Balanced (s : System) : Prop where
  /-- A uid in the map is that of one unanswered request… -/
  entry : ∀ u c, s.disp.activeRequests u = some c →
    c < s.disp.created ∧ s.disp.freed c = false ∧ (s.host c).reqUid = u
  /-- …and every unanswered request is there. -/
  entered : ∀ c, c < s.disp.created → s.disp.freed c = false →
    s.disp.activeRequests (s.host c).reqUid = some c
  /-- The next request overwrites nothing. -/
  fresh : (∀ u c, s.disp.activeRequests u = some c → s.disp.created - c < 2 ^ 32) →
    s.disp.activeRequests s.disp.reqUid = none
  outstanding : ∀ u c, s.disp.activeRequests u = some c →
    (s.host c).fragmentationSet =
      (Finset.range ((s.host c).dataLen.toNat / 1024)).filter (fun i => (c, i) ∉ s.read) ∧
    (s.host c).fragmentationSet ≠ ∅
  /-- Whatever is peeked, there is an entry for it. -/
  peeks : ∀ sockfd cuts, s.stream sockfd ≠ [] → 4 ≤ cuts 0 →
    ∃ u socket c, RequestHost.peek ⟨s.stream sockfd, cuts⟩ = .ok (u, socket) ∧
      s.disp.activeRequests u = some c
  done : ∀ c, (s.disp.completed.map Prod.fst).count c =
    if c < s.disp.created ∧ ∀ i < (s.host c).dataLen.toNat / 1024, (c, i) ∈ s.read then 1 else 0

/-- Something that is said of a request in terms of what never changes of it. -/
def Lasting (Q : RequestHost → Prop) : Prop := ∀ h h', SameRequest h h' → Q h → Q h'

/-- What is true of every message is true of every request. -/
theorem Inv.requests_step {Q : RequestHost → Prop} (hQ : Lasting Q) (h : Inv s) {l : Label}
    (hpeek : PeeksWhole s l) (hs : s.step l = some s')
    (hnew : ∀ message, l = .nbd message → Q (RequestHost.create s.disp.reqUid message))
    (hall : ∀ c < s.disp.created, Q (s.host c)) : ∀ c < s'.disp.created, Q (s'.host c) := by
  cases l with
  | nbd message =>
    intro c hc
    rw [created_nbd hs] at hc
    rw [host_nbd hs]
    split
    case isTrue => exact hnew message rfl
    case isFalse hne => exact hall c (by omega)
  | async =>
    obtain ⟨task, rest, -, rfl⟩ := async_cases hs
    exact hall
  | test k seen =>
    obtain ⟨task, -, -, ⟨-, rfl⟩ | ⟨-, rfl⟩⟩ := test_cases hs
    · exact hall
    · exact hall
  | send k junk =>
    obtain ⟨task, command, -, -, -, rfl⟩ := send_cases hs
    exact hall
  | answer k header data =>
    obtain ⟨m, -, rfl⟩ := answer_cases hs
    exact hall
  | iot sockfd cuts =>
    obtain ⟨r, rest, -, -, -, rfl⟩ := h.iot_cases hpeek hs
    obtain ⟨hsame, hreq⟩ := same_handleReply s r
    exact fun c hc => hQ _ _ (hreq c) (hall c (hsame ▸ hc))

/-- The invariant, and that every request has a fragment, over a run. -/
theorem run_inv {trace : List (System × Label)} (run : machine.Run init trace s)
    (hassumed : Machine.Meets Assumed trace) (hlucky : Machine.Meets Lucky trace) :
    Inv s ∧ ∀ c < s.disp.created, 0 < s.count c := by
  refine run.invariant (P := fun s => Inv s ∧ ∀ c < s.disp.created, 0 < s.count c)
    (r := fun s l => Assumed s l ∧ Lucky s l) ⟨inv_init, fun c hc => absurd hc (Nat.not_lt_zero c)⟩
    ?_ fun e he => ⟨hassumed e he, hlucky e he⟩
  rintro t l u ⟨h, hcount⟩ ⟨ha, hl⟩ hs
  refine ⟨inv_step h ha.honest ha.few hl.peeks hl.stale hs, ?_⟩
  refine h.requests_step (Q := fun h => 0 < h.count) (fun h h' hsame hpos => ?_) hl.peeks hs ?_ hcount
  · show 0 < h'.count
    rwa [hsame.count]
  · rintro message rfl
    obtain ⟨-, hpos, hwhole⟩ := ha.requests
    rw [RequestHost.count_eq]
    show 0 < message.nbdReq.dataLen.toNat / 1024
    omega

theorem Inv.balanced (h : Inv s) (hcount : ∀ c < s.disp.created, 0 < s.count c) : Balanced s where
  entry := by
    intro u c hu
    obtain ⟨hc, rfl, hfreed⟩ := (h.entry u c).mp hu
    exact ⟨hc, hfreed, h.uids c hc⟩
  entered := by
    intro c hc hfreed
    exact (h.entry _ _).mpr ⟨hc, h.uids c hc, hfreed⟩
  fresh := fun hfew =>
    have hrule : FewActive s (.nbd ⟨⟨0, 0, 0, fun _ => 0⟩, ⟨0, 0, []⟩⟩) := hfew
    h.fresh hrule
  outstanding := by
    intro u c hu
    obtain ⟨hc, -, hfreed⟩ := (h.entry u c).mp hu
    have hset := h.set c hc
    rw [System.count, RequestHost.count_eq] at hset
    refine ⟨hset, fun hempty => ?_⟩
    rw [hset, Finset.filter_eq_empty_iff] at hempty
    rw [← Bool.not_eq_true, h.freed] at hfreed
    refine hfreed ⟨hc, hcount c hc, fun i hi => ?_⟩
    rw [System.count, RequestHost.count_eq] at hi
    exact Decidable.not_not.mp (hempty (Finset.mem_range.mpr hi))
  peeks := by
    intro sockfd cuts hstream hcut
    obtain ⟨r, rest, -, hfilter, hr, -⟩ := h.iotHandle hstream hcut
    obtain ⟨-, -, -, hactive⟩ := h.reply_active hr
    obtain ⟨cuts', hpeek⟩ := peek_store r.header (r.data ++ rest.flatMap Reply.bytes) cuts hcut
    rw [h.stream, hfilter, List.flatMap_cons, Reply.bytes, List.append_assoc]
    exact ⟨_, _, _, hpeek, hactive⟩
  done := by
    intro c
    rw [h.completed.count]
    have hfreed := h.freed c
    rw [Dispatcher.freed, decide_eq_true_eq] at hfreed
    rw [← RequestHost.count_eq, show (s.host c).count = s.count c from rfl]
    by_cases hdone : c < s.disp.created ∧ ∀ i < s.count c, (c, i) ∈ s.read
    · rw [if_pos hdone, if_pos (hfreed.mpr ⟨hdone.1, hcount c hdone.1, hdone.2⟩)]
    · rw [if_neg hdone, if_neg fun hmem => hdone ⟨(hfreed.mp hmem).1, (hfreed.mp hmem).2.2⟩]

/-- **The completion invariant.** -/
theorem completion_invariant {trace : List (System × Label)} (run : machine.Run init trace s)
    (hassumed : Machine.Meets Assumed trace) (hlucky : Machine.Meets Lucky trace) : Balanced s := by
  obtain ⟨h, hcount⟩ := run_inv run hassumed hlucky
  exact h.balanced hcount

/-! ### Two runs -/

instance (s : System) : (l : Label) → Decidable (SendsWholeFragments s l)
  | .nbd message => inferInstanceAs (Decidable ((message.nbdReq.reqType = NBD_CMD_READ ∨
      message.nbdReq.reqType = NBD_CMD_WRITE) ∧ 0 < message.nbdReq.dataLen.toNat ∧
      message.nbdReq.dataLen.toNat % 1024 = 0))
  | .async | .test _ _ | .send _ _ | .answer _ _ _ | .iot _ _ => isTrue trivial

/-- Enough for the assumptions, and decided by evaluation. -/
def Routine (e : System × Label) : Prop :=
  SendsWholeFragments e.1 e.2 ∧ Honest e.1 e.2 ∧ e.1.disp.created < 2 ^ 32 ∧ PeeksWhole e.1 e.2

instance (e : System × Label) : Decidable (Routine e) := inferInstanceAs (Decidable (_ ∧ _))

theorem assumed_of_routine {trace : List (System × Label)} (h : ∀ e ∈ trace, Routine e) :
    Machine.Meets Assumed trace :=
  fun e he => ⟨(h e he).1, (h e he).2.1, fewActive_of_lt (h e he).2.2.1⟩

/-- A WRITE of two fragments and a READ, which overtakes it: its reply is handled before its
task returns, and the WRITE's replies in the other order than they were asked for. -/
def overtaken : List Label :=
  [.nbd ⟨⟨NBD_CMD_WRITE, 2048, 0, fun _ => 7⟩, ⟨0, 0, []⟩⟩, .async, .async,
    .nbd ⟨⟨NBD_CMD_READ, 1024, 4096, fun _ => 0⟩, ⟨1, 0, []⟩⟩, .async, .test 1 0, .test 2 0, .test 0 0,
    .send 0 fun _ => 0, .send 2 fun _ => 0, .send 1 fun _ => 0,
    .answer 2 ⟨1, 0, 0, 0, NBD_CMD_READ, 1024⟩ (List.replicate 1024 9), .iot 5 fun _ => 600, .test 0 0,
    .answer 0 ⟨0, 1, 0, 0, NBD_CMD_WRITE, 1024⟩ [], .answer 0 ⟨0, 0, 0, 0, NBD_CMD_WRITE, 1024⟩ [],
    .iot 2 fun _ => 24, .iot 1 fun _ => 24, .test 0 0, .test 0 0]

theorem completion_overtaken : ∃ trace s, machine.Run init trace s ∧
    s.disp.completed.map Prod.fst = [1, 0] ∧ Balanced s := by
  obtain ⟨trace, s, run, h⟩ := Machine.run_of_replay machine init overtaken
    (fun e => decide ((∀ x ∈ e.1, Routine x ∧ EndsStale x.1 x.2) ∧
      e.2.disp.completed.map Prod.fst = [1, 0])) (by decide +kernel)
  obtain ⟨hall, hdone⟩ := of_decide_eq_true h
  exact ⟨trace, s, run, hdone, completion_invariant run (assumed_of_routine fun e he => (hall e he).1)
    fun e he => ⟨(hall e he).1.2.2.2, (hall e he).2⟩⟩

/-- A WRITE of one fragment, up to the node's reply. -/
def writeSent : List Label :=
  [.nbd ⟨⟨NBD_CMD_WRITE, 1024, 0, fun _ => 7⟩, ⟨0, 0, []⟩⟩, .async, .test 0 0, .send 0 fun _ => 0,
    .answer 0 ⟨0, 0, 0, 0, NBD_CMD_WRITE, 1024⟩ []]

/-- The reply is handled first, and the loop condition reads `0x8000` where the length
was: fragment 8 of a request of one is sent, and answered. -/
def outlived : List Label :=
  writeSent ++ [.iot 1 fun _ => 24, .test 0 0x8000, .send 0 fun _ => 0,
    .answer 0 ⟨0, 8, 0, 1024, NBD_CMD_WRITE, 1024⟩ []]

/-- The uid on the socket is that of no request. -/
theorem outlived_task : ∃ trace s, machine.Run init trace s ∧ Machine.Meets Assumed trace ∧
    Machine.Meets PeeksWhole trace ∧ ¬Balanced s := by
  obtain ⟨trace, s, run, h⟩ := Machine.run_of_replay machine init outlived
    (fun e => decide ((∀ x ∈ e.1, Routine x) ∧ e.2.stream 1 ≠ [] ∧
      (RequestHost.peek ⟨e.2.stream 1, fun _ => 24⟩).toOption.map Prod.fst = some 0 ∧
      e.2.disp.activeRequests 0 = none)) (by decide +kernel)
  obtain ⟨hall, hstream, hzero, hnone⟩ := of_decide_eq_true h
  refine ⟨trace, s, run, assumed_of_routine hall, fun e he => (hall e he).2.2.2, fun hbal => ?_⟩
  obtain ⟨u, socket, c, hpeek, hc⟩ := hbal.peeks 1 (fun _ => 24) hstream (by decide)
  rw [hpeek] at hzero
  obtain rfl := Option.some.inj hzero
  cases hnone.symm.trans hc

end PrivateCloud.Dispatch.System
