import PrivateCloud.Dispatch.Refinement
import PrivateCloud.Library.Linearizable

/-! Each block of the distributed storage is an atomic register.

Nothing is assumed here of which requests are outstanding at once: WRITEs may overlap
READs and each other, and their fragments reach the nodes in any order. A request of many
blocks is then not done at one moment. But every block of it is: looked at by itself, block
`f` is read and written by the fragments that cover it, each at the moment in which its
node handles it, between the request's coming in and its reply on the NBD socket
(`block_linearizable`). -/
namespace PrivateCloud.Dispatch.System
open Nbd Host Local Object

/-- A READ or WRITE of whole blocks, as it comes off the NBD socket. -/
def WholeRequest (message : NbdMessage) : Prop :=
  (message.nbdReq.reqType = NBD_CMD_READ ∨ message.nbdReq.reqType = NBD_CMD_WRITE) ∧
    WholeBlocks message.nbdReq ∧ message.reply.handle.length = 8

instance (message : NbdMessage) : Decidable (WholeRequest message) :=
  inferInstanceAs (Decidable (_ ∧ _))

def TakesBlocks (_ : System) : Label → Prop
  | .nbd message => WholeRequest message
  | _ => True

instance (s : System) : (l : Label) → Decidable (TakesBlocks s l)
  | .nbd message => inferInstanceAs (Decidable (WholeRequest message))
  | .async | .test _ _ | .send _ _ | .answer _ _ _ | .iot _ _ => isTrue trivial

/-- What client, nodes and sockets are assumed to do. -/
structure BlockContract (s : System) (l : Label) : Prop where
  requests : TakesBlocks s l
  few : FewActive s l
  serves : Serves s l
  peeks : PeeksWhole s l
  stale : EndsStale s l

structure Pieces (s : System) : Prop where
  inv : Inv s
  request : ∀ c < s.disp.created, WholeRequest (s.host c).nbqReq
  payload : ∀ m ∈ s.wire, (s.req m.owner).reqType = NBD_CMD_WRITE →
    m.payload = piece (s.req m.owner) m.header.fragmentUid.toNat

theorem pieces_init : Pieces init where
  inv := inv_init
  request := fun c hc => absurd hc (Nat.not_lt_zero c)
  payload := nofun

variable {s s' : System}

theorem lasting_wholeRequest : Lasting fun h => WholeRequest h.nbqReq := by
  rintro h h' hsame ⟨htype, hwhole, hhandle⟩
  refine ⟨?_, wholeBlocks_same hsame hwhole, ?_⟩
  · rw [hsame.reqType]
    exact htype
  · rw [hsame.reply]
    exact hhandle

/-- Where a message goes, and for which block. -/
structure Placed (s : System) (m : Message) : Prop where
  active : Active s m.owner
  lt : m.header.fragmentUid.toNat < s.count m.owner
  block : firstBlock (s.req m.owner) + m.header.fragmentUid.toNat < 2 ^ 18
  sockfd : m.sockfd = (firstBlock (s.req m.owner) + m.header.fragmentUid.toNat) % 8 + 1
  offset : m.header.iotOffset.toNat = (firstBlock (s.req m.owner) + m.header.fragmentUid.toNat) * 128
  type : m.header.type = (s.req m.owner).reqType
  len : m.header.len.toNat = 1024

theorem Pieces.placed (h : Pieces s) {m : Message} (hm : m ∈ s.wire) : Placed s m := by
  obtain ⟨hactive, hi⟩ := h.inv.unhandled_active (mem_unhandled_message hm)
  have hlt := (h.request _ hactive.1).2.1.block_lt (show _ < blocks (s.req m.owner) by
    rwa [← count_eq_blocks])
  have hok := h.inv.message m hm
  have hinfo := RequestHost.infoAt_eq (s.host m.owner) m.header.fragmentUid.toNat
  obtain ⟨hsock, hoff⟩ := (s.host m.owner).infoAt_home (i := m.header.fragmentUid.toNat)
    (show firstBlock (s.req m.owner) + m.header.fragmentUid.toNat < 2 ^ 22 from
      Nat.lt_trans hlt (by decide))
  refine ⟨hactive, hi, hlt, hok.sockfd.trans hsock, ?_, ?_, ?_⟩
  · rw [congrArg AtlasHeader.iotOffset hok.header, hoff]
    rfl
  · rw [congrArg AtlasHeader.type hok.header, hinfo]
    rfl
  · rw [congrArg AtlasHeader.len hok.header, hinfo]
    rfl

/-- A node that serves is honest. -/
theorem Pieces.honest (h : Pieces s) {l : Label} (hserves : Serves s l) : Honest s l := by
  cases l with
  | answer k header data =>
    intro m hk
    obtain ⟨rfl, rfl⟩ := hserves m hk
    refine ⟨rfl, rfl, ?_⟩
    rw [Message.fetch]
    split
    · rw [Memory.read_length, (h.placed (List.mem_of_getElem? hk)).len]
    · rfl
  | _ => trivial

theorem Pieces.inv_step (h : Pieces s) {l : Label} (hl : BlockContract s l) (hs : s.step l = some s') :
    Inv s' :=
  System.inv_step h.inv (h.honest hl.serves) hl.few hl.peeks hl.stale hs

theorem Pieces.request_step (h : Pieces s) {l : Label} (hl : BlockContract s l)
    (hs : s.step l = some s') : ∀ c < s'.disp.created, WholeRequest (s'.host c).nbqReq := by
  refine h.inv.requests_step lasting_wholeRequest hl.peeks hs ?_ h.request
  rintro message rfl
  exact hl.requests

/-- A reply changes no buffer but that of a READ. -/
theorem Inv.piece_write (h : Inv s) {r : Reply} (hr : r ∈ s.pending)
    (hdisp : s'.disp = s.disp.handleReply r.header.requestUid r.owner r.header r.data) {c : ℕ} (i : ℕ)
    (hwrite : (s.req c).reqType = NBD_CMD_WRITE) : piece (s'.req c) i = piece (s.req c) i := by
  rw [h.piece_iot hr hdisp, if_neg]
  intro hcase
  obtain ⟨-, hread⟩ := hcase
  rw [hwrite] at hread
  exact absurd hread (by decide)

/-- What a task sends for a WRITE. -/
theorem Pieces.payload_send (h : Pieces s) {k : ℕ} {junk : Memory} (hs : s.step (.send k junk) = some s')
    {m : Message} (hm : m ∈ s'.wire) (hwrite : (s.req m.owner).reqType = NBD_CMD_WRITE) :
    m.payload = piece (s.req m.owner) m.header.fragmentUid.toNat := by
  obtain ⟨task, command, hk, hpc, hcommand, rfl⟩ := send_cases hs
  rcases List.mem_cons.mp hm with rfl | hm
  · have hmem := List.mem_of_getElem? hk
    have hinfo := (h.inv.task task (Or.inr hmem)).info
    rw [RequestHost.infoAt_eq] at hinfo
    obtain ⟨-, huid, -, hturn⟩ := h.inv.body_turn hk hpc
    -- The request is there: the fragment has not been answered.
    have hunsent : (task.owner, task.i.toNat) ∈ s.unsent task := hturn ▸ Multiset.mem_cons_self _ _
    obtain ⟨⟨-, hfreed⟩, -⟩ := h.inv.unhandled_active (mem_unhandled_task (Or.inr hmem) hunsent)
    have htype : task.info.atlasHeader.type = NBD_CMD_WRITE := hinfo ▸ hwrite
    have hstart : task.info.startDataBuff = task.i.toNat * 1024 := by rw [hinfo]
    have hlen : task.info.atlasHeader.len = fragSize := by rw [hinfo]
    obtain rfl : command = .writeRequest := by
      rcases creators_create _ _ hcommand with ⟨hread, -⟩ | ⟨-, hcmd⟩
      · exact absurd (htype.symm.trans hread) (by decide)
      · exact hcmd
    simp only [Command.sendRequest, dataBufAt, hfreed, Bool.false_eq_true, if_false, huid, hstart, hlen]
    rfl
  · exact h.payload m hm hwrite

theorem pieces_step {l : Label} (h : Pieces s) (hl : BlockContract s l) (hs : s.step l = some s') :
    Pieces s' := by
  refine ⟨h.inv_step hl hs, h.request_step hl hs, ?_⟩
  cases l with
  | nbd message =>
    intro m hm hwrite
    have hm : m ∈ s.wire := by
      obtain ⟨-, rfl⟩ := nbd_cases hs
      exact hm
    have hreq : s'.req m.owner = s.req m.owner := by
      rw [req, req, host_nbd_old hs (h.placed hm).active.1]
    rw [hreq] at hwrite ⊢
    exact h.payload m hm hwrite
  | async =>
    obtain ⟨task, rest, -, rfl⟩ := async_cases hs
    exact h.payload
  | test k seen =>
    obtain ⟨task, -, -, ⟨-, rfl⟩ | ⟨-, rfl⟩⟩ := test_cases hs
    · exact h.payload
    · exact h.payload
  | send k junk =>
    have hreq : s'.req = s.req := by
      obtain ⟨task, command, -, -, -, rfl⟩ := send_cases hs
      rfl
    rw [hreq]
    exact fun m hm => h.payload_send hs hm
  | answer k header data =>
    obtain ⟨m, -, rfl⟩ := answer_cases hs
    exact fun m' hm' => h.payload m' (List.mem_of_mem_eraseIdx hm')
  | iot sockfd cuts =>
    intro m hm hwrite
    obtain ⟨r, rest, -, hr, -, hs'⟩ := h.inv.iot_cases hl.peeks hs
    have hdisp : s'.disp = s.disp.handleReply r.header.requestUid r.owner r.header r.data :=
      hs' ▸ rfl
    have hm : m ∈ s.wire := by
      rw [hs'] at hm
      exact hm
    have htype : (s'.req m.owner).reqType = (s.req m.owner).reqType := by
      have hsame := ((same_handleReply s r).2 m.owner).reqType
      rw [← hdisp] at hsame
      exact hsame
    rw [htype] at hwrite
    rw [h.inv.piece_write hr hdisp _ hwrite]
    exact h.payload m hm hwrite

/-- What a node that handled a message keeps. -/
theorem Pieces.home_answer (h : Pieces s) {k : ℕ} {header : AtlasHeader} {data : List UInt8} {m : Message}
    (hk : s.wire[k]? = some m) (hs : s.step (.answer k header data) = some s') (f : ℕ) :
    s'.home f = if (s.req m.owner).reqType = NBD_CMD_WRITE ∧
      f = firstBlock (s.req m.owner) + m.header.fragmentUid.toNat then m.payload else s.home f := by
  obtain ⟨m', hk', rfl⟩ := answer_cases hs
  obtain rfl := Option.some.inj (hk'.symm.trans hk)
  have hm := List.mem_of_getElem? hk
  have hplaced := h.placed hm
  simp only [home, Function.update_apply]
  by_cases hnode : f % 8 + 1 = m'.sockfd
  · rw [if_pos hnode, Message.stores, hplaced.type, hplaced.offset]
    by_cases hwrite : (s.req m'.owner).reqType = NBD_CMD_WRITE
    · have hlen : m'.payload.length = 1024 := by rw [h.payload m' hm hwrite, piece, Memory.read_length]
      rw [if_pos hwrite]
      by_cases hf : f = firstBlock (s.req m'.owner) + m'.header.fragmentUid.toNat
      · rw [if_pos ⟨hwrite, hf⟩, ← hf, ← hlen, Memory.read_write_same]
      · -- Another block of the node is at least a block away.
        have hsock := hplaced.sockfd
        rw [if_neg fun hcon => hf hcon.2, Memory.read_write_disjoint _ (by omega), hnode]
    · rw [if_neg hwrite, if_neg fun hcon => hwrite hcon.1, hnode]
  · rw [if_neg hnode, if_neg]
    intro hcase
    obtain ⟨-, rfl⟩ := hcase
    exact hnode hplaced.sockfd.symm

/-! ### A block and what is done to it -/

inductive BlockOp where
  | read
  | write (bytes : List UInt8)

def register : Object (List UInt8) BlockOp (List UInt8) where
  init := List.replicate 1024 0
  does held op res held' :=
    match op with
    | .read => res = held ∧ held' = held
    | .write bytes => res = [] ∧ held' = bytes

/-- The request is for block `f` too. -/
def Covers (req : NbdRequest) (f : ℕ) : Prop := firstBlock req ≤ f ∧ f < firstBlock req + blocks req

instance (req : NbdRequest) (f : ℕ) : Decidable (Covers req f) := inferInstanceAs (Decidable (_ ∧ _))

/-- What a request is to block `f`. -/
def opOn (req : NbdRequest) (f : ℕ) : BlockOp :=
  if req.reqType = NBD_CMD_WRITE then .write (piece req (f - firstBlock req)) else .read

/-- Block `i` of the data in a reply on the NBD socket. -/
def replyBlock (bytes : List UInt8) (i : ℕ) : List UInt8 := (bytes.drop (16 + i * 1024)).take 1024

/-- The requests for block `f` as calls of its register: made when they come in, done when
a node handles their fragment for it, and back with their reply. -/
def marks (f : ℕ) (s : System) : Label → List (Mark ℕ BlockOp (List UInt8))
  | .nbd message =>
    if Covers message.nbdReq f then [.event (.invoke s.disp.created (opOn message.nbdReq f))] else []
  | .answer k _ data =>
    match s.wire[k]? with
    | some m =>
      if f = firstBlock (s.req m.owner) + m.header.fragmentUid.toNat then
        [.commit ⟨m.owner, opOn (s.req m.owner) f, data⟩]
      else []
    | none => []
  | .iot sockfd cuts =>
    match s.step (.iot sockfd cuts) with
    | some s' => (s'.disp.completed.drop s.disp.completed.length).filterMap fun e =>
        if Covers (s.req e.1) f then
          some (.event (.respond e.1 (replyBlock e.2 (f - firstBlock (s.req e.1)))))
        else none
    | none => []
  | .async | .test _ _ | .send _ _ => []

/-- What a node had for a fragment it has handled, on its way back or in the buffer. -/
def fetched (s : System) (c i : ℕ) : List UInt8 :=
  match s.pending.find? fun r => r.fragment = (c, i) with
  | some r => r.data
  | none => piece (s.req c) i

def phase (f : ℕ) (s : System) (c : ℕ) : Phase BlockOp (List UInt8) :=
  let i := f - firstBlock (s.req c)
  if c < s.disp.created ∧ Covers (s.req c) f then
    if s.disp.freed c then .returned
    else if (c, i) ∈ s.unhandled then .invoked (opOn (s.req c) f)
    else .committed (if (s.req c).reqType = NBD_CMD_READ then s.fetched c i else [])
  else .idle

theorem home_init (f : ℕ) : init.home f = register.init := by
  show (List.range 1024).map (fun _ => (0 : UInt8)) = List.replicate 1024 0
  rw [List.map_const', List.length_range]

section Phases
variable {f c : ℕ}

theorem phase_idle (h : ¬(c < s.disp.created ∧ Covers (s.req c) f)) : phase f s c = .idle := if_neg h

theorem phase_freed (hc : c < s.disp.created) (hcovers : Covers (s.req c) f)
    (hfreed : s.disp.freed c = true) : phase f s c = .returned := by
  simp only [phase, if_pos (And.intro hc hcovers), if_pos hfreed]

theorem phase_unhandled (hc : Active s c) (hcovers : Covers (s.req c) f)
    (hf : (c, f - firstBlock (s.req c)) ∈ s.unhandled) :
    phase f s c = .invoked (opOn (s.req c) f) := by
  simp only [phase, if_pos (And.intro hc.1 hcovers), hc.2, Bool.false_eq_true, if_false, if_pos hf]

theorem phase_handled (hc : Active s c) (hcovers : Covers (s.req c) f)
    (hf : (c, f - firstBlock (s.req c)) ∉ s.unhandled) : phase f s c =
      .committed (if (s.req c).reqType = NBD_CMD_READ then s.fetched c (f - firstBlock (s.req c)) else []) := by
  simp only [phase, if_pos (And.intro hc.1 hcovers), hc.2, Bool.false_eq_true, if_false, if_neg hf]

/-- The phases of requests that a step does not concern. -/
theorem phase_congr (hcreated : c < s'.disp.created ↔ c < s.disp.created)
    (hfirst : firstBlock (s'.req c) = firstBlock (s.req c))
    (hcovers : Covers (s'.req c) f ↔ Covers (s.req c) f)
    (hop : opOn (s'.req c) f = opOn (s.req c) f) (htype : (s'.req c).reqType = (s.req c).reqType)
    (hfreed : s'.disp.freed c = s.disp.freed c)
    (hunhandled : (c, f - firstBlock (s.req c)) ∈ s'.unhandled ↔ (c, f - firstBlock (s.req c)) ∈ s.unhandled)
    (hfetched : Active s c → Covers (s.req c) f → (c, f - firstBlock (s.req c)) ∉ s.unhandled →
      (s.req c).reqType = NBD_CMD_READ →
      s'.fetched c (f - firstBlock (s.req c)) = s.fetched c (f - firstBlock (s.req c))) :
    phase f s' c = phase f s c := by
  simp only [phase, hcreated, hfirst, hcovers, hop, htype, hfreed, hunhandled]
  split
  case isFalse => rfl
  case isTrue hmade =>
    cases hlive : s.disp.freed c with
    | true => rfl
    | false =>
      by_cases hf : (c, f - firstBlock (s.req c)) ∈ s.unhandled
      · simp only [if_pos hf]
      · by_cases hread : (s.req c).reqType = NBD_CMD_READ
        · simp only [if_pos hread, hfetched ⟨hmade.1, hlive⟩ hmade.2 hf hread]
        · simp only [if_neg hread]

end Phases

/-! ### Where the data are -/

theorem Inv.pending_nodup (h : Inv s) : (s.pending.map Reply.fragment).Nodup := by
  have hnodup := (Multiset.nodup_add.mp (Multiset.nodup_add.mp h.nodup).1).2.1
  rwa [Multiset.map_coe, Multiset.coe_nodup] at hnodup

theorem Inv.fetched_pending (h : Inv s) {r : Reply} (hr : r ∈ s.pending) {c i : ℕ}
    (hfragment : r.fragment = (c, i)) : s.fetched c i = r.data := by
  rw [fetched]
  cases hfind : s.pending.find? fun r => r.fragment = (c, i) with
  | none =>
    have := List.find?_eq_none.mp hfind r hr
    exact absurd hfragment (by simpa using this)
  | some r' =>
    have hr' := List.mem_of_find?_eq_some hfind
    have hsame : r'.fragment = (c, i) := by simpa using List.find?_some hfind
    rw [List.inj_on_of_nodup_map h.pending_nodup hr' hr (hsame.trans hfragment.symm)]

theorem fetched_none {c i : ℕ} (h : ∀ r ∈ s.pending, r.fragment ≠ (c, i)) :
    s.fetched c i = piece (s.req c) i := by
  rw [fetched, List.find?_eq_none.mpr fun r hr => by simpa using h r hr]

theorem Inv.fetched_read (h : Inv s) {c i : ℕ} (hread : (c, i) ∈ s.read) :
    s.fetched c i = piece (s.req c) i :=
  fetched_none fun r hr heq => h.not_read (Or.inr ⟨r, hr, heq⟩) hread

/-- A fragment that a node has handled is on its way back or read. -/
theorem Inv.handled (h : Inv s) {c i : ℕ} (hc : c < s.disp.created) (hi : i < s.count c)
    (hf : (c, i) ∉ s.unhandled) : (∃ r ∈ s.pending, r.fragment = (c, i)) ∨ (c, i) ∈ s.read := by
  have hmem := (h.ledger c i).mpr ⟨hc, hi⟩
  simpa only [System.ledger, Multiset.mem_add, hf, false_or, Multiset.mem_map, Multiset.mem_coe] using hmem

theorem Covers.lt_count {c f : ℕ} (h : Covers (s.req c) f) : f - firstBlock (s.req c) < s.count c := by
  obtain ⟨hlo, hhi⟩ := h
  rw [count_eq_blocks]
  omega

/-! ### Every step, as the block sees it -/

variable (f : ℕ)

/-- A step of a task, or towards one. -/
theorem moves_task (hdisp : s'.disp = s.disp) (hunhandled : s'.unhandled = s.unhandled)
    (hpending : s'.pending = s.pending) (hstore : s'.store = s.store) :
    Object.Moves register (phase f s) (s.home f) [] (phase f s') (s'.home f) := by
  have hreq := req_congr hdisp
  have hphase : phase f s' = phase f s := by
    funext c
    refine phase_congr ?_ ?_ ?_ ?_ ?_ ?_ ?_ fun _ _ _ _ => ?_
    · rw [hdisp]
    · rw [hreq]
    · rw [hreq]
    · rw [hreq]
    · rw [hreq]
    · rw [hdisp]
    · rw [hunhandled]
    · rw [fetched, fetched, hpending, hreq]
  rw [hphase, home, home, hstore]
  exact Object.Moves.nil

theorem Pieces.moves_nbd (h : Pieces s) {message : NbdMessage} (hs : s.step (.nbd message) = some s') :
    Object.Moves register (phase f s) (s.home f) (marks f s (.nbd message)) (phase f s') (s'.home f) := by
  have hcreated := created_nbd hs
  have hold {c : ℕ} (hc : c < s.disp.created) : s'.req c = s.req c := by
    rw [req, req, host_nbd_old hs hc]
  have hnew : s'.req s.disp.created = message.nbdReq := by
    rw [req, host_nbd_new hs]
    rfl
  have hmem {c i : ℕ} : (c, i) ∈ s'.unhandled ↔
      (c = s.disp.created ∧ i < s'.count s.disp.created) ∨ (c, i) ∈ s.unhandled := by
    rw [h.inv.unhandled_nbd hs, Multiset.mem_add]
    simp only [Multiset.mem_map, Multiset.mem_range, Prod.mk.injEq]
    refine or_congr_left ⟨fun hmade => ?_, fun hmade => ⟨i, hmade.2, hmade.1.symm, rfl⟩⟩
    obtain ⟨j, hj, hc, rfl⟩ := hmade
    exact ⟨hc.symm, hj⟩
  have hquiet : s'.pending = s.pending ∧ s'.disp.completed = s.disp.completed ∧ s'.store = s.store := by
    obtain ⟨-, rfl⟩ := nbd_cases hs
    exact ⟨rfl, rfl, rfl⟩
  obtain ⟨hpending, hcompleted, hstore⟩ := hquiet
  have hfreed (c : ℕ) : s'.disp.freed c = s.disp.freed c := by
    rw [Dispatcher.freed, Dispatcher.freed, hcompleted]
  have hhome : s'.home f = s.home f := by rw [home, home, hstore]
  -- The requests there were stay in their phases.
  have hsame {c : ℕ} (hc : c ≠ s.disp.created) : phase f s' c = phase f s c := by
    by_cases hlt : c < s.disp.created
    · have hreq := hold hlt
      refine phase_congr ?_ ?_ ?_ ?_ ?_ (hfreed c) ?_ fun _ _ _ _ => ?_
      · omega
      · rw [hreq]
      · rw [hreq]
      · rw [hreq]
      · rw [hreq]
      · rw [hmem]
        exact or_iff_right fun hcon => hc hcon.1
      · rw [fetched, fetched, hpending, hreq]
    · rw [phase_idle fun hcon => hlt hcon.1, phase_idle]
      intro hcase
      obtain ⟨hcon, -⟩ := hcase
      omega
  have hidle : phase f s s.disp.created = .idle := phase_idle fun hcon => Nat.lt_irrefl _ hcon.1
  by_cases hcovers : Covers message.nbdReq f
  · have hcovers' : Covers (s'.req s.disp.created) f := hnew ▸ hcovers
    have hactive : Active s' s.disp.created := by
      refine ⟨by omega, ?_⟩
      rw [hfreed, ← Bool.not_eq_true]
      exact fun hcon => Nat.lt_irrefl _ ((h.inv.freed _).mp hcon).1
    have hphase : phase f s' = Function.update (phase f s) s.disp.created
        (.invoked (opOn message.nbdReq f)) := by
      funext c
      by_cases hc : c = s.disp.created
      · subst hc
        rw [Function.update_self,
          phase_unhandled hactive hcovers' (hmem.mpr (Or.inl ⟨rfl, hcovers'.lt_count⟩)), hnew]
      · rw [Function.update_of_ne hc, hsame hc]
    simp only [marks, if_pos hcovers, hphase, hhome]
    exact Object.Moves.nil.invoke hidle
  · have hphase : phase f s' = phase f s := by
      funext c
      by_cases hc : c = s.disp.created
      · subst hc
        rw [hidle, phase_idle fun hcon => hcovers (hnew ▸ hcon.2)]
      · exact hsame hc
    simp only [marks, if_neg hcovers, hphase, hhome]
    exact Object.Moves.nil

/-- **A node handles a fragment**: this is the moment in which its request is done, as far
as the block is concerned. -/
theorem Pieces.moves_answer (h : Pieces s) {k : ℕ} {header : AtlasHeader} {data : List UInt8}
    (hserves : Serves s (.answer k header data)) (hs : s.step (.answer k header data) = some s')
    (h' : Pieces s') : Object.Moves register (phase f s) (s.home f) (marks f s (.answer k header data))
      (phase f s') (s'.home f) := by
  obtain ⟨m, hk, hs'⟩ := answer_cases hs
  obtain ⟨rfl, rfl⟩ := hserves m hk
  have hm := List.mem_of_getElem? hk
  have hplaced := h.placed hm
  have hunhandled := unhandled_answer hk hs
  have hhome := h.home_answer hk hs f
  have hdisp : s'.disp = s.disp := hs' ▸ rfl
  have hreq := req_congr hdisp
  have hnew : (⟨m.owner, m.sockfd, m.header, m.fetch (s.store m.sockfd)⟩ : Reply) ∈ s'.pending := by
    rw [hs']
    exact List.mem_append_right _ (List.mem_singleton_self _)
  have hgone : m.fragment ∉ s'.unhandled := by
    have hnodup := (Multiset.nodup_add.mp (Multiset.nodup_add.mp h.inv.nodup).1).1
    rw [hunhandled] at hnodup
    exact (Multiset.nodup_cons.mp hnodup).1
  -- The other fragments stay where they are.
  have hsame {c : ℕ} (hne : (c, f - firstBlock (s.req c)) ≠ m.fragment) : phase f s' c = phase f s c := by
    refine phase_congr ?_ ?_ ?_ ?_ ?_ ?_ ?_ fun hc hcovers hf _ => ?_
    · rw [hdisp]
    · rw [hreq]
    · rw [hreq]
    · rw [hreq]
    · rw [hreq]
    · rw [hdisp]
    · rw [hunhandled, Multiset.mem_cons]
      exact (or_iff_right hne).symm
    · rcases h.inv.handled hc.1 hcovers.lt_count hf with ⟨r, hr, hfragment⟩ | hread
      · have hr' : r ∈ s'.pending := by
          rw [hs']
          exact List.mem_append_left _ hr
        rw [h.inv.fetched_pending hr hfragment, h'.inv.fetched_pending hr' hfragment]
      · have hread' : (c, f - firstBlock (s.req c)) ∈ s'.read := by
          rw [hs']
          exact hread
        rw [h.inv.fetched_read hread, h'.inv.fetched_read hread', hreq]
  by_cases hf : f = firstBlock (s.req m.owner) + m.header.fragmentUid.toNat
  · have hi : f - firstBlock (s.req m.owner) = m.header.fragmentUid.toNat := by omega
    have hcovers : Covers (s.req m.owner) f := by
      have hlt := hplaced.lt
      rw [count_eq_blocks] at hlt
      exact ⟨by omega, by omega⟩
    have hinvoked : phase f s m.owner = .invoked (opOn (s.req m.owner) f) := by
      apply phase_unhandled hplaced.active hcovers
      rw [hi]
      exact mem_unhandled_message hm
    have hcommitted : phase f s' m.owner = .committed (m.fetch (s.store m.sockfd)) := by
      have hactive : Active s' m.owner := active_congr hdisp ▸ hplaced.active
      rw [phase_handled hactive (by rw [hreq]; exact hcovers) (by rw [hreq, hi]; exact hgone), hreq, hi]
      by_cases hread : (s.req m.owner).reqType = NBD_CMD_READ
      · rw [if_pos hread, h'.inv.fetched_pending hnew rfl]
      · rw [if_neg hread, Message.fetch, hplaced.type, if_neg hread]
    have hphase : phase f s' =
        Function.update (phase f s) m.owner (.committed (m.fetch (s.store m.sockfd))) := by
      funext c
      by_cases hc : c = m.owner
      · subst hc
        rw [Function.update_self, hcommitted]
      · rw [Function.update_of_ne hc]
        exact hsame fun hcon => hc (Prod.mk.inj hcon).1
    simp only [marks, hk, if_pos hf, hphase]
    apply Object.Moves.nil.commit hinvoked
    rw [hhome, opOn]
    by_cases hwrite : (s.req m.owner).reqType = NBD_CMD_WRITE
    · rw [if_pos hwrite, if_pos ⟨hwrite, hf⟩, h.payload m hm hwrite, hi]
      refine ⟨?_, rfl⟩
      rw [Message.fetch, hplaced.type, hwrite]
      rfl
    · have hread : (s.req m.owner).reqType = NBD_CMD_READ :=
        (h.request _ hplaced.active.1).1.resolve_right hwrite
      rw [if_neg hwrite, if_neg fun hcon => hwrite hcon.1]
      refine ⟨?_, rfl⟩
      rw [Message.fetch, hplaced.type, if_pos hread, hplaced.offset, hplaced.len, hplaced.sockfd, ← hf,
        home]
  · have hphase : phase f s' = phase f s := by
      funext c
      by_cases hcovers : c < s.disp.created ∧ Covers (s.req c) f
      · refine hsame fun hcon => hf ?_
        obtain ⟨rfl, hi⟩ := Prod.mk.inj hcon
        have hlo := hcovers.2.1
        omega
      · rw [phase_idle hcovers, phase_idle (by rw [hdisp, hreq]; exact hcovers)]
    simp only [marks, hk, if_neg hf, hphase]
    rw [hhome, if_neg fun hcon => hf hcon.2]
    exact Object.Moves.nil

/-! ### A reply, and the answer on the NBD socket -/

/-- What the client finds of a block in a READ's answer. -/
theorem replyBlock_read {done : NbdMessage} (hhandle : done.reply.handle.length = 8)
    (hread : done.nbdReq.reqType = NBD_CMD_READ) {i : ℕ}
    (hi : i * 1024 + 1024 ≤ done.nbdReq.dataLen.toNat) :
    replyBlock (nbdRequestDone done 0) i = piece done.nbdReq i := by
  have hlen : (Bytes.toLE 4 done.reply.magic.toNat ++ Bytes.toLE 4 (htonl 0).toNat ++
      done.reply.handle).length = 16 := by
    rw [List.length_append, List.length_append, Bytes.toLE_length, Bytes.toLE_length, hhandle]
  rw [replyBlock, nbdRequestDone]
  dsimp only
  rw [if_pos hread, ← List.drop_drop, List.drop_left' hlen, Memory.take_drop_read _ _ hi, Nat.zero_add,
    piece]

theorem replyBlock_write {done : NbdMessage} (hhandle : done.reply.handle.length = 8)
    (hread : done.nbdReq.reqType ≠ NBD_CMD_READ) (i : ℕ) : replyBlock (nbdRequestDone done 0) i = [] := by
  have hlen : (nbdRequestDone done 0).length = 16 := by
    rw [nbdRequestDone]
    dsimp only
    rw [if_neg hread, List.append_nil, List.length_append, List.length_append, Bytes.toLE_length,
      Bytes.toLE_length, hhandle]
  rw [replyBlock, List.drop_of_length_le (by omega), List.take_nil]

/-- **A reply is put where it is looked for**: what a node had for a fragment is found in the
request's buffer once the reply is read. -/
theorem Inv.fetched_iot (h : Inv s) (h' : Inv s') {sockfd : ℕ} {r : Reply} {rest : List Reply}
    (hfilter : (s.pending.filter fun r => r.sockfd = sockfd) = r :: rest) (hr : r ∈ s.pending)
    (hdisp : s'.disp = s.disp.handleReply r.header.requestUid r.owner r.header r.data)
    (hpending : s'.pending = s.pending.eraseP fun r => r.sockfd = sockfd)
    (hread : s'.read = r.fragment :: s.read) {c i : ℕ} (hc : c < s.disp.created) (hi : i < s.count c)
    (hf : (c, i) ∉ s.unhandled) (htype : (s.req c).reqType = NBD_CMD_READ) :
    s'.fetched c i = s.fetched c i := by
  have hpiece := h.piece_iot hr hdisp c i
  rcases h.handled hc hi hf with ⟨r', hr', hfragment⟩ | hmem
  · rw [h.fetched_pending hr' hfragment]
    have hsplit : r' ∈ r ::ₘ ((s.pending.eraseP fun r => r.sockfd = sockfd : List Reply) : Multiset Reply) :=
      Bag.coe_eraseP hfilter ▸ Multiset.mem_coe.mpr hr'
    rcases Multiset.mem_cons.mp hsplit with rfl | hother
    · have hmem' : (c, i) ∈ s'.read := by
        rw [hread, hfragment]
        exact List.mem_cons_self
      rw [h'.fetched_read hmem', hpiece, if_pos ⟨hfragment.symm, htype⟩]
    · exact h'.fetched_pending (hpending ▸ Multiset.mem_coe.mp hother) hfragment
  · have hmem' : (c, i) ∈ s'.read := hread ▸ List.mem_cons_of_mem _ hmem
    rw [h.fetched_read hmem, h'.fetched_read hmem', hpiece, if_neg]
    intro hcase
    obtain ⟨heq, -⟩ := hcase
    exact h.not_read (Or.inr ⟨r, hr, heq.symm⟩) hmem

/-- A request whose replies have all been read is answered with what is in its buffer. -/
theorem Pieces.replyBlock_iot (h : Pieces s) {r : Reply} (hr : r ∈ s.pending)
    (hdisp : s'.disp = s.disp.handleReply r.header.requestUid r.owner r.header r.data) (h' : Pieces s')
    {i : ℕ} (hmem : (r.owner, i) ∈ s'.read) {bytes : List UInt8}
    (hfetched : (s.req r.owner).reqType = NBD_CMD_READ → s'.fetched r.owner i = bytes) :
    replyBlock (nbdRequestDone (consume (s.disp.host r.owner) r.header r.data).nbqReq 0) i =
      if (s.req r.owner).reqType = NBD_CMD_READ then bytes else [] := by
  have hhost : (s'.host r.owner).nbqReq = (consume (s.disp.host r.owner) r.header r.data).nbqReq := by
    rw [host_handleReply hdisp, if_pos rfl]
    rfl
  have hsame := same_handleReply s r
  rw [← hdisp] at hsame
  have htype : (s'.req r.owner).reqType = (s.req r.owner).reqType := (hsame.2 r.owner).reqType
  have hcreated : r.owner < s'.disp.created := by
    rw [hsame.1]
    exact (h.inv.reply_active hr).1
  obtain ⟨-, hwhole, hhandle⟩ := h'.request r.owner hcreated
  rw [← hhost]
  by_cases hread : (s.req r.owner).reqType = NBD_CMD_READ
  · have hi := ((h'.inv.ledger _ _).mp (mem_ledger_read hmem)).2
    rw [count_eq_blocks] at hi
    have hlen : (s'.req r.owner).dataLen.toNat = blocks (s'.req r.owner) * 1024 := hwhole.dataLen_eq
    have hinside : i * 1024 + 1024 ≤ (s'.req r.owner).dataLen.toNat := by omega
    rw [if_pos hread, replyBlock_read hhandle (htype.trans hread) hinside, ← hfetched hread,
      h'.inv.fetched_read hmem]
    rfl
  · rw [if_neg hread, replyBlock_write hhandle (fun hcon => hread (htype.symm.trans hcon))]

theorem Pieces.moves_iot (h : Pieces s) {sockfd : ℕ} {cuts : ℕ → ℕ} (hcut : 4 ≤ cuts 0)
    (hs : s.step (.iot sockfd cuts) = some s') (h' : Pieces s') :
    Object.Moves register (phase f s) (s.home f) (marks f s (.iot sockfd cuts)) (phase f s') (s'.home f) := by
  have hunhandled := h.inv.unhandled_iot hcut hs
  obtain ⟨r, rest, hfilter, hr, -, hs'⟩ := h.inv.iot_cases hcut hs
  have hdisp : s'.disp = s.disp.handleReply r.header.requestUid r.owner r.header r.data := hs' ▸ rfl
  obtain ⟨hcreated, hlt, hlive, -⟩ := h.inv.reply_active hr
  have hsame := same_handleReply s r
  rw [← hdisp] at hsame
  obtain ⟨hmade, hreq⟩ := hsame
  have hhome : s'.home f = s.home f := by
    rw [hs']
    rfl
  have hfreed (c : ℕ) : s'.disp.freed c = true ↔
      s.disp.freed c = true ∨ (c = r.owner ∧ Dispatcher.Last s.disp r.owner r.header) := by
    rw [hdisp]
    exact Dispatcher.handleReply_freed ..
  have hfirst (c : ℕ) : firstBlock (s'.req c) = firstBlock (s.req c) := firstBlock_same (hreq c)
  have hcovers (c : ℕ) : Covers (s'.req c) f ↔ Covers (s.req c) f := by
    rw [Covers, Covers, hfirst, ← count_eq_blocks, ← count_eq_blocks, (show s'.count c = s.count c from
      (hreq c).count)]
  have htype (c : ℕ) : (s'.req c).reqType = (s.req c).reqType := (hreq c).reqType
  have hfetched {c : ℕ} (hc : c < s.disp.created) (hcov : Covers (s.req c) f)
      (hf : (c, f - firstBlock (s.req c)) ∉ s.unhandled) (hread : (s.req c).reqType = NBD_CMD_READ) :
      s'.fetched c (f - firstBlock (s.req c)) = s.fetched c (f - firstBlock (s.req c)) :=
    h.inv.fetched_iot h'.inv hfilter hr hdisp (hs' ▸ rfl) (hs' ▸ rfl) hc hcov.lt_count hf hread
  have hop (c : ℕ) : opOn (s'.req c) f = opOn (s.req c) f := by
    rw [opOn, opOn, htype, hfirst]
    by_cases hwrite : (s.req c).reqType = NBD_CMD_WRITE
    · rw [if_pos hwrite, if_pos hwrite, h.inv.piece_write hr hdisp _ hwrite]
    · rw [if_neg hwrite, if_neg hwrite]
  have hquiet {c : ℕ} (hc : s'.disp.freed c = s.disp.freed c) : phase f s' c = phase f s c := by
    refine phase_congr ?_ (hfirst c) (hcovers c) (hop c) (htype c) hc ?_
      fun hactive hcov hf hread => hfetched hactive.1 hcov hf hread
    · rw [hmade]
    · rw [hunhandled]
  have hdone := congrArg Dispatcher.completed hdisp
  rw [Dispatcher.handleReply_eq] at hdone
  dsimp only at hdone
  by_cases hlast : Dispatcher.Last s.disp r.owner r.header
  · rw [if_pos hlast] at hdone
    have hother {c : ℕ} (hc : c ≠ r.owner) : phase f s' c = phase f s c := by
      refine hquiet (Bool.eq_iff_iff.mpr ?_)
      rw [hfreed]
      exact or_iff_left fun hcon => hc hcon.1
    have hmarks : marks f s (.iot sockfd cuts) = if Covers (s.req r.owner) f then
        [.event (.respond r.owner (replyBlock
          (nbdRequestDone (consume (s.disp.host r.owner) r.header r.data).nbqReq 0)
          (f - firstBlock (s.req r.owner))))] else [] := by
      simp only [marks, hs, hdone, List.drop_left, List.filterMap_cons, List.filterMap_nil]
      split <;> simp_all
    rw [hmarks, hhome]
    by_cases hcov : Covers (s.req r.owner) f
    · have hmem : (r.owner, f - firstBlock (s.req r.owner)) ∈ s'.read := by
        rw [hs']
        exact (h.inv.last_iff hr).mp hlast _ hcov.lt_count
      have hf : (r.owner, f - firstBlock (s.req r.owner)) ∉ s.unhandled := fun hcon =>
        h'.inv.not_read (Or.inl (hunhandled ▸ hcon)) hmem
      have hcommitted := phase_handled ⟨hcreated, hlive⟩ hcov hf
      have hanswer : replyBlock (nbdRequestDone (consume (s.disp.host r.owner) r.header r.data).nbqReq 0)
          (f - firstBlock (s.req r.owner)) = if (s.req r.owner).reqType = NBD_CMD_READ then
            s.fetched r.owner (f - firstBlock (s.req r.owner)) else [] :=
        h.replyBlock_iot hr hdisp h' hmem (hfetched hcreated hcov hf)
      have hphase : phase f s' = Function.update (phase f s) r.owner .returned := by
        funext c
        by_cases hc : c = r.owner
        · subst hc
          rw [Function.update_self]
          exact phase_freed (hmade.symm ▸ hcreated) ((hcovers _).mpr hcov)
            ((hfreed _).mpr (Or.inr ⟨rfl, hlast⟩))
        · rw [Function.update_of_ne hc, hother hc]
      rw [if_pos hcov, hphase, hanswer]
      exact Object.Moves.nil.respond hcommitted
    · have hphase : phase f s' = phase f s := by
        funext c
        by_cases hc : c = r.owner
        · rw [phase_idle fun hcon => hcov (hc ▸ hcon.2),
            phase_idle fun hcon => hcov (hc ▸ (hcovers c).mp hcon.2)]
        · exact hother hc
      rw [if_neg hcov, hphase]
      exact Object.Moves.nil
  · rw [if_neg hlast] at hdone
    have hmarks : marks f s (.iot sockfd cuts) = [] := by
      simp only [marks, hs, hdone, List.drop_length, List.filterMap_nil]
    have hphase : phase f s' = phase f s := by
      funext c
      refine hquiet (Bool.eq_iff_iff.mpr ?_)
      rw [hfreed]
      exact or_iff_left fun hcon => hlast hcon.2
    rw [hmarks, hhome, hphase]
    exact Object.Moves.nil

theorem Pieces.moves_step {l : Label} (h : Pieces s) (hl : BlockContract s l)
    (hs : s.step l = some s') (h' : Pieces s') :
    Object.Moves register (phase f s) (s.home f) (marks f s l) (phase f s') (s'.home f) := by
  cases l with
  | nbd message => exact h.moves_nbd f hs
  | answer k header data => exact h.moves_answer f hl.serves hs h'
  | iot sockfd cuts => exact h.moves_iot f hl.peeks hs h'
  | async =>
    have hunhandled := unhandled_async hs
    obtain ⟨task, rest, -, rfl⟩ := async_cases hs
    exact moves_task f rfl hunhandled rfl rfl
  | test k seen =>
    have hunhandled := h.inv.unhandled_test hl.stale hs
    obtain ⟨task, -, -, ⟨-, rfl⟩ | ⟨-, rfl⟩⟩ := test_cases hs
    · exact moves_task f rfl hunhandled rfl rfl
    · exact moves_task f rfl hunhandled rfl rfl
  | send k junk =>
    have hunhandled := h.inv.unhandled_send hs
    obtain ⟨task, command, -, -, -, rfl⟩ := send_cases hs
    exact moves_task f rfl hunhandled rfl rfl

/-- **Every block is an atomic register**, whatever requests are outstanding at once and in
whatever order their fragments are sent and handled: the requests for a block have an order
that respects real time, in which each READ's answer has for the block what the WRITE
before it put there, and the nodes have what the last one did. -/
theorem block_linearizable {trace : List (System × Label)} (run : machine.Run init trace s)
    (hl : Machine.Meets BlockContract trace) :
    register.Linearizes (history (marksOf (marks f) trace)) (order (marksOf (marks f) trace))
      (s.home f) := by
  refine linearizes_of_run (P := Pieces) (phase f) (fun s => s.home f) run pieces_init ?_ (home_init f)
    (fun _ _ _ h hl hs => ?_) hl
  · exact fun c => phase_idle fun hcon => absurd hcon.1 (Nat.not_lt_zero c)
  · have h' := pieces_step h hl hs
    exact ⟨h', h.moves_step f hl hs h'⟩

/-- A WRITE of a block, and a READ of it that comes in later and overtakes it. -/
theorem block_linearizable_overtaken : ∃ trace s, machine.Run init trace s ∧
    (order (marksOf (marks 0) trace)).map Commit.call = [1, 0] ∧
    s.disp.completed.map Prod.fst = [1, 0] ∧
    register.Linearizes (history (marksOf (marks 0) trace)) (order (marksOf (marks 0) trace))
      (s.home 0) := by
  obtain ⟨trace, s, run, h⟩ := Machine.run_of_replay machine init
    [.nbd ⟨⟨NBD_CMD_WRITE, 1024, 0, fun _ => 7⟩, ⟨0, 0, List.replicate 8 1⟩⟩, .async,
      .nbd ⟨⟨NBD_CMD_READ, 1024, 0, fun _ => 0⟩, ⟨0, 0, List.replicate 8 2⟩⟩, .async,
      .test 0 0, .test 1 0, .send 0 fun _ => 0, .send 1 fun _ => 0,
      .answer 1 ⟨1, 0, 0, 0, NBD_CMD_READ, 1024⟩ (List.replicate 1024 0),
      .answer 0 ⟨0, 0, 0, 0, NBD_CMD_WRITE, 1024⟩ [], .iot 1 fun _ => 24, .iot 1 fun _ => 24]
    (fun e => decide ((∀ x ∈ e.1, TakesBlocks x.1 x.2 ∧ x.1.disp.created < 2 ^ 32 ∧ Serves x.1 x.2 ∧
      PeeksWhole x.1 x.2 ∧ EndsStale x.1 x.2) ∧
        (order (marksOf (marks 0) e.1)).map Commit.call = [1, 0] ∧
          e.2.disp.completed.map Prod.fst = [1, 0])) (by decide +kernel)
  obtain ⟨hall, horder, hdone⟩ := of_decide_eq_true h
  have hl : Machine.Meets BlockContract trace := fun e he =>
    ⟨(hall e he).1, fewActive_of_lt (hall e he).2.1, (hall e he).2.2.1, (hall e he).2.2.2.1,
      (hall e he).2.2.2.2⟩
  exact ⟨trace, s, run, horder, hdone, block_linearizable 0 run hl⟩

end PrivateCloud.Dispatch.System
