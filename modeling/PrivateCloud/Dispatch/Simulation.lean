import PrivateCloud.Dispatch.Completion
import PrivateCloud.Host.Placement
import PrivateCloud.Local.Server

/-! The nodes' stores against the storage of the local server.

The local server is given the requests as they arrive. While a WRITE is outstanding its
storage is ahead of the stores: block by block, a store holds what the storage did when
the WRITE arrived, until a node has handled the block's fragment, and from then on what
the storage does now (`awaited`, `settled`). A READ that is outstanding sees no WRITE of
its blocks come in, so that what it finds, whenever a node fetches it, is what the local
server answered when it arrived. `Sim` is kept by every step (`sim_step`). -/
namespace PrivateCloud.Dispatch.System
open Nbd Host Local

/-! ### The terms of the comparison -/

def req (s : System) (c : ℕ) : NbdRequest := (s.host c).nbqReq.nbdReq

/-- Taken and not yet answered. -/
def Active (s : System) (c : ℕ) : Prop := c < s.disp.created ∧ s.disp.freed c = false

/-- What the nodes keep of block `f`. -/
def home (s : System) (f : ℕ) : List UInt8 := (s.store (f % 8 + 1)).read (f * 128) 1024

/-- A READ or WRITE of whole blocks, and with no WRITE among those it overlaps. -/
def TakesRequest (s : System) : Label → Prop
  | .nbd message => (message.nbdReq.reqType = NBD_CMD_READ ∨ message.nbdReq.reqType = NBD_CMD_WRITE) ∧
      WholeBlocks message.nbdReq ∧ ∀ c, Active s c → Overlap (s.req c) message.nbdReq →
        (s.req c).reqType = NBD_CMD_READ ∧ message.nbdReq.reqType = NBD_CMD_READ
  | _ => True

/-- A node echoes the header, followed by what it has for a READ. -/
def Serves (s : System) : Label → Prop
  | .answer k header data => ∀ m ∈ s.wire[k]?, header = m.header ∧ data = m.fetch (s.store m.sockfd)
  | _ => True

/-- A task sees its request's length unchanged. -/
def SeesLength (s : System) : Label → Prop
  | .test k seen => ∀ task ∈ s.tasks[k]?, seen = (s.req task.owner).dataLen
  | _ => True

/-- What client, nodes and sockets are assumed to do. -/
structure Contract (s : System) (l : Label) : Prop where
  requests : TakesRequest s l
  few : FewActive s l
  serves : Serves s l
  peeks : PeeksWhole s l
  length : SeesLength s l

/-- The message a request was made from. -/
structure Means (message : NbdMessage) (h : RequestHost) : Prop where
  reply : h.nbqReq.reply = message.reply
  reqType : h.nbqReq.nbdReq.reqType = message.nbdReq.reqType
  dataLen : h.nbqReq.nbdReq.dataLen = message.nbdReq.dataLen
  offset : h.nbqReq.nbdReq.offset = message.nbdReq.offset
  buffer : message.nbdReq.reqType ≠ NBD_CMD_READ → h.nbqReq.nbdReq.dataBuf = message.nbdReq.dataBuf

/-- The system against the requests that the local server was given. -/
structure Sim (s : System) (ms : List NbdMessage) : Prop where
  inv : Inv s
  length : ms.length = s.disp.created
  means : ∀ c message, ms[c]? = some message → Means message (s.host c)
  types : ∀ c < s.disp.created, (s.req c).reqType = NBD_CMD_READ ∨ (s.req c).reqType = NBD_CMD_WRITE
  whole : ∀ c < s.disp.created, WholeBlocks (s.req c)
  apart : ∀ c c', Active s c → Active s c' → c ≠ c' → Overlap (s.req c) (s.req c') →
    (s.req c).reqType = NBD_CMD_READ ∧ (s.req c').reqType = NBD_CMD_READ
  /-- A WRITE that no node has handled has changed nothing… -/
  awaited : ∀ c i, (c, i) ∈ s.unhandled → (s.req c).reqType = NBD_CMD_WRITE →
    s.home (firstBlock (s.req c) + i) = block (storageAfter (ms.take c)) (firstBlock (s.req c) + i)
  /-- …and everywhere else the stores are up to date. -/
  settled : ∀ f < 2 ^ 18, (∀ c i, (c, i) ∈ s.unhandled → (s.req c).reqType = NBD_CMD_WRITE →
    f ≠ firstBlock (s.req c) + i) → s.home f = block (storageAfter ms) f
  /-- The storage has not changed under an outstanding READ… -/
  reads : ∀ c, Active s c → (s.req c).reqType = NBD_CMD_READ → ∀ i < s.count c,
    block (storageAfter ms) (firstBlock (s.req c) + i) =
      block (storageAfter (ms.take c)) (firstBlock (s.req c) + i)
  /-- …and has the data of an outstanding WRITE. -/
  writes : ∀ c, Active s c → (s.req c).reqType = NBD_CMD_WRITE → ∀ i < s.count c,
    block (storageAfter ms) (firstBlock (s.req c) + i) = piece (s.req c) i
  payload : ∀ m ∈ s.wire, (s.req m.owner).reqType = NBD_CMD_WRITE →
    m.payload = piece (s.req m.owner) m.header.fragmentUid.toNat
  data : ∀ r ∈ s.pending, (s.req r.owner).reqType = NBD_CMD_READ → r.data =
    block (storageAfter (ms.take r.owner)) (firstBlock (s.req r.owner) + r.header.fragmentUid.toNat)
  buffer : ∀ c i, (c, i) ∈ s.read → (s.req c).reqType = NBD_CMD_READ →
    piece (s.req c) i = block (storageAfter (ms.take c)) (firstBlock (s.req c) + i)
  done : ∀ e ∈ s.disp.completed, ∃ message, ms[e.1]? = some message ∧
    e.2 = (handle message (storageAfter (ms.take e.1))).1

variable {s s' : System} {ms : List NbdMessage}

theorem count_eq_blocks (s : System) (c : ℕ) : s.count c = blocks (s.req c) := RequestHost.count_eq _

/-- A fragment nobody has answered is one of an active request. -/
theorem Inv.unhandled_active (h : Inv s) {c i : ℕ} (hf : (c, i) ∈ s.unhandled) :
    Active s c ∧ i < s.count c := by
  obtain ⟨hc, hi⟩ := (h.ledger c i).mp (mem_ledger_unhandled hf)
  refine ⟨⟨hc, ?_⟩, hi⟩
  rw [← Bool.not_eq_true]
  exact fun hfreed => h.not_read (Or.inl hf) (((h.freed c).mp hfreed).2.2 i hi)

/-- The rules follow from the contract. -/
theorem Contract.rules {l : Label} (hc : Contract s l) (h : Inv s) : Honest s l ∧ EndsStale s l := by
  constructor
  · cases l with
    | answer k header data =>
      intro m hk
      obtain ⟨rfl, rfl⟩ := hc.serves m hk
      have hlen : m.header.len.toNat = 1024 := by
        rw [(h.message m (List.mem_of_getElem? hk)).header, RequestHost.infoAt_eq]
        rfl
      refine ⟨rfl, rfl, ?_⟩
      unfold Message.fetch
      split
      · rw [Memory.read_length, hlen]
      · rfl
    | _ => trivial
  · cases l with
    | test k seen =>
      intro task hk hfreed hlt
      have hmem := List.mem_of_getElem? hk
      obtain rfl := hc.length task hk
      have hdone := h.stale_done (Or.inr hmem) hfreed
      exact absurd ((s.lt_count_iff task).mp hlt) (Nat.not_lt.mpr hdone)
    | _ => trivial

theorem sim_init : Sim init [] where
  inv := inv_init
  length := rfl
  means := fun _ _ h => nomatch h
  types := fun c hc => absurd hc (Nat.not_lt_zero c)
  whole := fun c hc => absurd hc (Nat.not_lt_zero c)
  apart := fun c _ hc => absurd hc.1 (Nat.not_lt_zero c)
  awaited := fun _ _ h => absurd h (Multiset.notMem_zero _)
  settled := fun _ _ _ => rfl
  reads := fun c hc => absurd hc.1 (Nat.not_lt_zero c)
  writes := fun c hc => absurd hc.1 (Nat.not_lt_zero c)
  payload := fun _ h => nomatch h
  data := fun _ h => nomatch h
  buffer := fun _ _ h => nomatch h
  done := fun _ h => nomatch h

/-! ### Tasks -/

theorem req_congr (h : s'.disp = s.disp) : s'.req = s.req := by
  funext c
  rw [req, req, host_congr h]

theorem active_congr (h : s'.disp = s.disp) : Active s' = Active s := by
  funext c
  rw [Active, Active, h]

/-- A step of a task, or towards one: dispatcher and stores stay. -/
theorem Sim.quiet (h : Sim s ms) (hinv : Inv s') (hdisp : s'.disp = s.disp)
    (hstore : s'.store = s.store) (hunhandled : s'.unhandled = s.unhandled)
    (hpending : s'.pending = s.pending) (hread : s'.read = s.read)
    (hpayload : ∀ m ∈ s'.wire, (s.req m.owner).reqType = NBD_CMD_WRITE →
      m.payload = piece (s.req m.owner) m.header.fragmentUid.toNat) : Sim s' ms := by
  have hhost := host_congr hdisp
  have hreq := req_congr hdisp
  have hcount := count_congr hdisp
  have hactive := active_congr hdisp
  have hhome : s'.home = s.home := by
    funext f
    rw [home, home, hstore]
  constructor
  case inv => exact hinv
  case length => rw [hdisp]; exact h.length
  case means => rw [hhost]; exact h.means
  case types => rw [hdisp, hreq]; exact h.types
  case whole => rw [hdisp, hreq]; exact h.whole
  case apart => rw [hactive, hreq]; exact h.apart
  case awaited => rw [hunhandled, hreq, hhome]; exact h.awaited
  case settled => rw [hunhandled, hreq, hhome]; exact h.settled
  case reads => rw [hactive, hreq, hcount]; exact h.reads
  case writes => rw [hactive, hreq, hcount]; exact h.writes
  case payload => rw [hreq]; exact hpayload
  case data => rw [hpending, hreq]; exact h.data
  case buffer => rw [hread, hreq]; exact h.buffer
  case done => rw [hdisp]; exact h.done

theorem sim_async (h : Sim s ms) (hs : s.step .async = some s') : Sim s' ms := by
  have hinv := inv_async h.inv hs
  have hunhandled := unhandled_async hs
  obtain ⟨task, rest, -, rfl⟩ := async_cases hs
  exact h.quiet hinv rfl rfl hunhandled rfl rfl h.payload

theorem sim_test {k : ℕ} {seen : UInt32} (h : Sim s ms) (hrule : EndsStale s (.test k seen))
    (hs : s.step (.test k seen) = some s') : Sim s' ms := by
  have hinv := inv_test h.inv hrule hs
  have hunhandled := h.inv.unhandled_test hrule hs
  obtain ⟨task, -, -, ⟨-, rfl⟩ | ⟨-, rfl⟩⟩ := test_cases hs
  · exact h.quiet hinv rfl rfl hunhandled rfl rfl h.payload
  · exact h.quiet hinv rfl rfl hunhandled rfl rfl h.payload

/-- **A WRITE's message** carries its piece of the request's buffer. -/
theorem sim_send {k : ℕ} {junk : Memory} (h : Sim s ms) (hs : s.step (.send k junk) = some s') :
    Sim s' ms := by
  have hinv := inv_send h.inv hs
  have hunhandled := h.inv.unhandled_send hs
  obtain ⟨task, command, hk, hpc, hcommand, rfl⟩ := send_cases hs
  refine h.quiet hinv rfl rfl hunhandled rfl rfl fun m hm hwrite => ?_
  rcases List.mem_cons.mp hm with rfl | hm
  · have hmem := List.mem_of_getElem? hk
    have hok := h.inv.task task (Or.inr hmem)
    obtain ⟨-, huid, -, hturn⟩ := h.inv.body_turn hk hpc
    have hunsent : (task.owner, task.i.toNat) ∈ s.unsent task := by
      rw [hturn]
      exact Multiset.mem_cons_self _ _
    obtain ⟨⟨-, hfreed⟩, -⟩ := h.inv.unhandled_active (mem_unhandled_task (Or.inr hmem) hunsent)
    have htype : task.info.atlasHeader.type = NBD_CMD_WRITE := by
      rw [hok.info, RequestHost.infoAt_eq]
      exact hwrite
    have hcmd : command = .writeRequest := by
      rcases creators_create _ _ hcommand with ⟨hread, -⟩ | ⟨-, hcmd⟩
      · rw [htype] at hread
        exact absurd hread (by decide)
      · exact hcmd
    have hstart : task.info.startDataBuff = task.i.toNat * 1024 ∧
        task.info.atlasHeader.len = fragSize := by
      rw [hok.info, RequestHost.infoAt_eq]
      exact ⟨rfl, rfl⟩
    subst hcmd
    simp only [Command.sendRequest, dataBufAt, hfreed, Bool.false_eq_true, if_false, huid, hstart.1,
      hstart.2]
    rfl
  · exact h.payload m hm hwrite

/-! ### Nodes -/

/-- Where a message goes, and for which block. -/
theorem Sim.place (h : Sim s ms) {m : Message} (hm : m ∈ s.wire) :
    firstBlock (s.req m.owner) + m.header.fragmentUid.toNat < 2 ^ 18 ∧
      m.sockfd = (firstBlock (s.req m.owner) + m.header.fragmentUid.toNat) % 8 + 1 ∧
      m.header.iotOffset.toNat = (firstBlock (s.req m.owner) + m.header.fragmentUid.toNat) * 128 ∧
      m.header.type = (s.req m.owner).reqType ∧ m.header.len.toNat = 1024 := by
  obtain ⟨⟨hc, -⟩, hi⟩ := h.inv.unhandled_active (mem_unhandled_message hm)
  have hlt := (h.whole _ hc).block_lt (by rwa [← count_eq_blocks])
  have hok := h.inv.message m hm
  obtain ⟨hsock, hoff⟩ := (s.host m.owner).infoAt_home (i := m.header.fragmentUid.toNat)
    (show firstBlock (s.req m.owner) + m.header.fragmentUid.toNat < 2 ^ 22 by omega)
  refine ⟨hlt, ?_, ?_, ?_, ?_⟩
  · rw [hok.sockfd, hsock]
    rfl
  · rw [congrArg AtlasHeader.iotOffset hok.header, hoff]
    rfl
  · rw [congrArg AtlasHeader.type hok.header, RequestHost.infoAt_eq]
    rfl
  · rw [congrArg AtlasHeader.len hok.header, RequestHost.infoAt_eq]
    rfl

/-- What a node that handled a message keeps. -/
theorem Sim.home_answer (h : Sim s ms) {k : ℕ} {header : AtlasHeader} {data : List UInt8} {m : Message}
    (hk : s.wire[k]? = some m) (hs : s.step (.answer k header data) = some s') (f : ℕ) :
    s'.home f = if (s.req m.owner).reqType = NBD_CMD_WRITE ∧
      f = firstBlock (s.req m.owner) + m.header.fragmentUid.toNat then m.payload else s.home f := by
  obtain ⟨m', hk', rfl⟩ := answer_cases hs
  obtain rfl := Option.some.inj (hk'.symm.trans hk)
  have hm := List.mem_of_getElem? hk
  obtain ⟨-, hsock, hoff, htype, -⟩ := h.place hm
  have hstore : (Function.update s.store m'.sockfd (m'.stores (s.store m'.sockfd))) (f % 8 + 1) =
      if f % 8 + 1 = m'.sockfd then m'.stores (s.store m'.sockfd) else s.store (f % 8 + 1) := by
    rw [Function.update_apply]
  simp only [home, hstore]
  by_cases hwrite : (s.req m'.owner).reqType = NBD_CMD_WRITE
  · have hpayload := h.payload m' hm hwrite
    have hlen : m'.payload.length = 1024 := by rw [hpayload, piece, Memory.read_length]
    rw [Message.stores, htype, if_pos hwrite, hoff]
    by_cases hf : f = firstBlock (s.req m'.owner) + m'.header.fragmentUid.toNat
    · refine Eq.trans ?_ (if_pos ⟨hwrite, hf⟩).symm
      rw [if_pos (by rw [hsock, hf]), ← hf, ← hlen, Memory.read_write_same]
    · refine Eq.trans ?_ (if_neg fun hcon => hf hcon.2).symm
      split
      case isTrue hsame =>
        -- Another block of the node is at least a block away.
        rw [hsock] at hsame
        rw [Memory.read_write_disjoint _ (by rw [hlen]; omega), hsock, hsame]
      case isFalse => rfl
  · refine Eq.trans ?_ (if_neg fun hcon => hwrite hcon.1).symm
    rw [Message.stores, htype, if_neg hwrite]
    split
    case isTrue hsame => rw [hsame]
    case isFalse => rfl

theorem sim_answer {k : ℕ} {header : AtlasHeader} {data : List UInt8} (h : Sim s ms)
    (hrule : Serves s (.answer k header data)) (hhonest : Honest s (.answer k header data))
    (hs : s.step (.answer k header data) = some s') : Sim s' ms := by
  have hinv := inv_answer h.inv hhonest hs
  obtain ⟨m, hk, hs'⟩ := answer_cases hs
  have hunhandled := unhandled_answer hk hs
  have hhome := h.home_answer hk hs
  have hm := List.mem_of_getElem? hk
  obtain ⟨rfl, rfl⟩ := hrule m hk
  obtain ⟨hactive, hi⟩ := h.inv.unhandled_active (mem_unhandled_message hm)
  obtain ⟨hlt, hsock, hoff, htype, hlen⟩ := h.place hm
  -- An unhandled WRITE of the same block is the same fragment.
  have hsame {c i : ℕ} (hf : (c, i) ∈ s.unhandled) (hwrite : (s.req c).reqType = NBD_CMD_WRITE)
      (heq : firstBlock (s.req c) + i = firstBlock (s.req m.owner) + m.header.fragmentUid.toNat) :
      (c, i) = m.fragment := by
    obtain ⟨hc, hic⟩ := h.inv.unhandled_active hf
    by_cases hne : c = m.owner
    · subst hne
      exact Prod.ext rfl (Nat.add_left_cancel heq)
    · have hover := (h.whole c hc.1).overlap (h.whole m.owner hactive.1)
        (by rwa [← count_eq_blocks]) (by rwa [← count_eq_blocks]) heq
      rw [(h.apart c m.owner hc hactive hne hover).1] at hwrite
      exact absurd hwrite (by decide)
  have hgone : m.fragment ∉ s'.unhandled := by
    have hnodup := (Multiset.nodup_add.mp (Multiset.nodup_add.mp h.inv.nodup).1).1
    rw [hunhandled] at hnodup
    exact (Multiset.nodup_cons.mp hnodup).1
  have hstill {f : ℕ × ℕ} (hf : f ∈ s'.unhandled) : f ∈ s.unhandled := by
    rw [hunhandled]
    exact Multiset.mem_cons_of_mem hf
  have hread (hr : (s.req m.owner).reqType = NBD_CMD_READ) : m.fetch (s.store m.sockfd) =
      block (storageAfter (ms.take m.owner))
        (firstBlock (s.req m.owner) + m.header.fragmentUid.toNat) := by
    rw [← h.reads m.owner hactive hr _ hi, ← h.settled _ hlt, Message.fetch, htype, if_pos hr, hoff, hlen,
      hsock]
    · rfl
    · -- No WRITE of the block is outstanding under the READ.
      rintro c i hf hwrite heq
      obtain rfl : c = m.owner := (Prod.mk.inj (hsame hf hwrite heq.symm)).1
      rw [hr] at hwrite
      exact absurd hwrite (by decide)
  subst hs'
  constructor
  case inv => exact hinv
  case length => exact h.length
  case means => exact h.means
  case types => exact h.types
  case whole => exact h.whole
  case apart => exact h.apart
  case awaited =>
    intro c i hf hwrite
    rw [hhome, if_neg]
    · exact h.awaited c i (hstill hf) hwrite
    · rintro ⟨-, heq⟩
      exact hgone (hsame (hstill hf) hwrite heq ▸ hf)
  case settled =>
    intro f hf hnone
    rw [hhome]
    split
    case isTrue hcon =>
      obtain ⟨hwrite, rfl⟩ := hcon
      rw [h.payload m hm hwrite]
      exact (h.writes m.owner hactive hwrite _ hi).symm
    case isFalse hcon =>
      refine h.settled f hf fun c i hmem hwrite heq => ?_
      rw [hunhandled, Multiset.mem_cons] at hmem
      rcases hmem with hmem | hmem
      · obtain ⟨rfl, rfl⟩ := Prod.mk.inj hmem
        exact hcon ⟨hwrite, heq⟩
      · exact hnone c i hmem hwrite heq
  case reads => exact h.reads
  case writes => exact h.writes
  case payload => exact fun m' hm' => h.payload m' (List.mem_of_mem_eraseIdx hm')
  case data =>
    intro r hr hr'
    rcases List.mem_append.mp hr with hr | hr
    · exact h.data r hr hr'
    · obtain rfl := List.mem_singleton.mp hr
      exact hread hr'
  case buffer => exact h.buffer
  case done => exact h.done

/-! ### The reactor: a reply -/

theorem firstBlock_same {h h' : RequestHost} (hsame : SameRequest h h') :
    firstBlock h'.nbqReq.nbdReq = firstBlock h.nbqReq.nbdReq := by
  rw [firstBlock, firstBlock, hsame.offset]

theorem wholeBlocks_same {h h' : RequestHost} (hsame : SameRequest h h')
    (hw : WholeBlocks h.nbqReq.nbdReq) : WholeBlocks h'.nbqReq.nbdReq where
  offset := by rw [hsame.offset]; exact hw.offset
  dataLen := by rw [hsame.dataLen]; exact hw.dataLen
  pos := by rw [hsame.dataLen]; exact hw.pos
  inside := by rw [hsame.offset, hsame.dataLen]; exact hw.inside

theorem overlap_same {h h' g g' : RequestHost} (hsame : SameRequest h h') (gsame : SameRequest g g') :
    Overlap h'.nbqReq.nbdReq g'.nbqReq.nbdReq ↔ Overlap h.nbqReq.nbdReq g.nbqReq.nbdReq := by
  rw [Overlap, Overlap, hsame.offset, hsame.dataLen, gsame.offset, gsame.dataLen]

/-- What a reply does to the buffers: the piece it brings, of a READ. -/
theorem Inv.dataBuf_iot (h : Inv s) {r : Reply} (hr : r ∈ s.pending)
    (hdisp : s'.disp = s.disp.handleReply r.header.requestUid r.owner r.header r.data) (c : ℕ) :
    (s'.req c).dataBuf = if c = r.owner ∧ (s.req c).reqType = NBD_CMD_READ then
      (s.req c).dataBuf.write (r.header.fragmentUid.toNat * 1024) r.data else (s.req c).dataBuf := by
  obtain ⟨-, hi, -, -⟩ := h.reply_active hr
  obtain ⟨hstart, -⟩ := (s.host r.owner).slice_inside hi
  rw [req, host_handleReply hdisp]
  by_cases hc : c = r.owner
  · subst hc
    rw [if_pos rfl]
    show (s.req r.owner).dataBuf.write (r.header.fragmentUid * fragSize).toNat r.data = _
    rw [hstart]
    by_cases hread : (s.req r.owner).reqType = NBD_CMD_READ
    · rw [if_pos ⟨rfl, hread⟩]
    · have hnone : r.data = [] :=
        List.length_eq_zero_iff.mp ((h.reply r hr).data.trans (if_neg hread))
      rw [if_neg fun hcon => hread hcon.2, hnone, write_nil]
  · rw [if_neg hc, if_neg fun hcon => hc hcon.1]
    rfl

theorem Inv.piece_iot (h : Inv s) {r : Reply} (hr : r ∈ s.pending)
    (hdisp : s'.disp = s.disp.handleReply r.header.requestUid r.owner r.header r.data) (c i : ℕ) :
    piece (s'.req c) i = if (c, i) = r.fragment ∧ (s.req c).reqType = NBD_CMD_READ then r.data
      else piece (s.req c) i := by
  rw [piece, h.dataBuf_iot hr hdisp]
  by_cases hread : c = r.owner ∧ (s.req c).reqType = NBD_CMD_READ
  · obtain ⟨rfl, hread⟩ := hread
    have hlen : r.data.length = 1024 := (h.reply r hr).data.trans (if_pos hread)
    rw [if_pos ⟨rfl, hread⟩]
    by_cases hi : i = r.header.fragmentUid.toNat
    · subst hi
      refine Eq.trans ?_ (if_pos ⟨rfl, hread⟩).symm
      rw [← hlen, Memory.read_write_same]
    · refine Eq.trans ?_ (if_neg fun hcon => hi (Prod.mk.inj hcon.1).2).symm
      exact Memory.read_write_disjoint _ (by rw [hlen]; omega)
  · rw [if_neg hread, if_neg fun hcon => hread ⟨(Prod.mk.inj hcon.1).1, hcon.2⟩]
    rfl

theorem Means.same {message : NbdMessage} {h h' : RequestHost} (hm : Means message h)
    (hsame : SameRequest h h') (hbuf : message.nbdReq.reqType ≠ NBD_CMD_READ →
      h'.nbqReq.nbdReq.dataBuf = h.nbqReq.nbdReq.dataBuf) : Means message h' where
  reply := hsame.reply.trans hm.reply
  reqType := hsame.reqType.trans hm.reqType
  dataLen := hsame.dataLen.trans hm.dataLen
  offset := hsame.offset.trans hm.offset
  buffer := fun hne => (hbuf hne).trans (hm.buffer hne)

/-- The message of a request, in the request's terms. -/
theorem Sim.message (h : Sim s ms) {c : ℕ} (hc : c < s.disp.created) :
    ∃ message, ms[c]? = some message ∧ Means message (s.host c) ∧
      firstBlock message.nbdReq = firstBlock (s.req c) ∧ blocks message.nbdReq = blocks (s.req c) ∧
      WholeBlocks message.nbdReq := by
  have hlt : c < ms.length := by rw [h.length]; exact hc
  have hget := List.getElem?_eq_getElem hlt
  have hm := h.means c _ hget
  have hw := h.whole c hc
  have hoff : (s.req c).offset = ms[c].nbdReq.offset := hm.offset
  have hlen : (s.req c).dataLen = ms[c].nbdReq.dataLen := hm.dataLen
  refine ⟨_, hget, hm, by rw [firstBlock, firstBlock, hoff], by rw [blocks, blocks, hlen], ?_, ?_, ?_, ?_⟩
  · rw [← hoff]; exact hw.offset
  · rw [← hlen]; exact hw.dataLen
  · rw [← hlen]; exact hw.pos
  · rw [← hoff, ← hlen]; exact hw.inside

/-- **A request is answered as the local server answered it**, once it has all its
pieces. -/
theorem Sim.answered (h : Sim s ms) {c : ℕ} (hc : c < s.disp.created) {done : NbdMessage}
    (hreply : done.reply = (s.host c).nbqReq.reply)
    (htype : done.nbdReq.reqType = (s.req c).reqType) (hlen : done.nbdReq.dataLen = (s.req c).dataLen)
    (hdata : (s.req c).reqType = NBD_CMD_READ → ∀ i < s.count c,
      piece done.nbdReq i = block (storageAfter (ms.take c)) (firstBlock (s.req c) + i)) :
    ∃ message, ms[c]? = some message ∧
      nbdRequestDone done 0 = (handle message (storageAfter (ms.take c))).1 := by
  obtain ⟨message, hget, hm, hfirst, hblocks, hw⟩ := h.message hc
  refine ⟨message, hget, handle_reply hw (hreply.trans hm.reply) (htype.trans hm.reqType)
    (hlen.trans hm.dataLen) fun hread i hi => ?_⟩
  rw [hfirst]
  refine hdata (hm.reqType.trans hread) i ?_
  rwa [count_eq_blocks, ← hblocks]

theorem sim_iot {sockfd : ℕ} {cuts : ℕ → ℕ} (h : Sim s ms) (hcut : 4 ≤ cuts 0)
    (hs : s.step (.iot sockfd cuts) = some s') : Sim s' ms := by
  have hinv := inv_iot h.inv hcut hs
  have hunhandled := h.inv.unhandled_iot hcut hs
  obtain ⟨r, rest, hfilter, hr, -, rfl⟩ := h.inv.iot_cases hcut hs
  set s' : System := { s with
    disp := s.disp.handleReply r.header.requestUid r.owner r.header r.data
    stream := Function.update s.stream sockfd (rest.flatMap Reply.bytes)
    pending := s.pending.eraseP fun r => r.sockfd = sockfd
    read := r.fragment :: s.read } with hs'
  have hdisp : s'.disp = s.disp.handleReply r.header.requestUid r.owner r.header r.data := rfl
  obtain ⟨hcreated, hi, -, -⟩ := h.inv.reply_active hr
  obtain ⟨hsame, hreq⟩ : s'.disp.created = s.disp.created ∧
      ∀ c, SameRequest (s.host c) (s'.host c) := same_handleReply s r
  have hpiece := h.inv.piece_iot hr hdisp
  have hbuf := h.inv.dataBuf_iot hr hdisp
  have htype (c : ℕ) : (s'.req c).reqType = (s.req c).reqType := (hreq c).reqType
  have hfirst (c : ℕ) : firstBlock (s'.req c) = firstBlock (s.req c) := firstBlock_same (hreq c)
  have hcount : s'.count = s.count := funext fun c => (hreq c).count
  have hactive {c : ℕ} (hc : Active s' c) : Active s c := by
    refine ⟨hsame ▸ hc.1, ?_⟩
    rw [← Bool.not_eq_true]
    intro hfreed
    have hlater := (Dispatcher.handleReply_freed s.disp r.header.requestUid r.owner r.header r.data c).mpr
      (Or.inl hfreed)
    exact Bool.noConfusion (hlater.symm.trans hc.2)
  have hkept (c i : ℕ) (hne : (s.req c).reqType ≠ NBD_CMD_READ) :
      piece (s'.req c) i = piece (s.req c) i := by
    rw [hpiece, if_neg fun hcon => hne hcon.2]
  have hwrite {c : ℕ} (hw : (s.req c).reqType = NBD_CMD_WRITE) : (s.req c).reqType ≠ NBD_CMD_READ := by
    rw [hw]
    decide
  -- The pieces read so far, the new one among them.
  have hread (c i : ℕ) (hmem : (c, i) ∈ r.fragment :: s.read)
      (hr' : (s.req c).reqType = NBD_CMD_READ) :
      piece (s'.req c) i = block (storageAfter (ms.take c)) (firstBlock (s.req c) + i) := by
    rw [hpiece]
    split
    case isTrue hnew =>
      obtain ⟨rfl, rfl⟩ := Prod.mk.inj hnew.1
      exact h.data r hr hr'
    case isFalse hold =>
      refine h.buffer c i ?_ hr'
      exact (List.mem_cons.mp hmem).resolve_left fun heq => hold ⟨heq, hr'⟩
  constructor
  case inv => exact hinv
  case length => rw [hsame]; exact h.length
  case means =>
    intro c message hget
    refine (h.means c message hget).same (hreq c) fun hne => ?_
    rw [← (h.means c message hget).reqType] at hne
    exact (hbuf c).trans (if_neg fun hcon => hne hcon.2)
  case types =>
    intro c hc
    rw [htype]
    exact h.types c (hsame ▸ hc)
  case whole => exact fun c hc => wholeBlocks_same (hreq c) (h.whole c (hsame ▸ hc))
  case apart =>
    intro c c' hc hc' hne hover
    rw [htype, htype]
    exact h.apart c c' (hactive hc) (hactive hc') hne ((overlap_same (hreq c) (hreq c')).mp hover)
  case awaited =>
    intro c i hf hw
    rw [htype] at hw
    rw [hfirst]
    exact h.awaited c i (hunhandled ▸ hf) hw
  case settled =>
    intro f hf hnone
    refine h.settled f hf fun c i hmem hw => ?_
    rw [← hfirst]
    exact hnone c i (hunhandled ▸ hmem) (by rw [htype]; exact hw)
  case reads =>
    intro c hc hr'
    rw [htype] at hr'
    rw [hcount, hfirst]
    exact h.reads c (hactive hc) hr'
  case writes =>
    intro c hc hw i hi
    rw [htype] at hw
    rw [hfirst, hkept c i (hwrite hw)]
    exact h.writes c (hactive hc) hw i (hcount ▸ hi)
  case payload =>
    intro m hm hw
    rw [htype] at hw
    rw [hkept _ _ (hwrite hw)]
    exact h.payload m hm hw
  case data =>
    intro r' hr' hread'
    rw [htype] at hread'
    rw [hfirst]
    exact h.data r' (List.mem_of_mem_eraseP hr') hread'
  case buffer =>
    intro c i hmem hr'
    rw [htype] at hr'
    rw [hfirst]
    exact hread c i hmem hr'
  case done =>
    intro e he
    rw [hdisp, Dispatcher.handleReply_eq] at he
    dsimp only at he
    split at he
    case isFalse => exact h.done e he
    case isTrue hlast =>
      rcases List.mem_append.mp he with he | he
      · exact h.done e he
      · obtain rfl := List.mem_singleton.mp he
        have hall := (h.inv.last_iff hr).mp hlast
        refine h.answered hcreated rfl rfl rfl fun hr' i hi => ?_
        have hhost : (s'.host r.owner).nbqReq = (consume (s.disp.host r.owner) r.header r.data).nbqReq := by
          rw [host_handleReply hdisp, if_pos rfl]
          rfl
        have hpiece' := hread r.owner i (hall i hi) hr'
        rwa [req, hhost] at hpiece'

/-! ### The reactor: a request -/

/-- A block of an outstanding request, as the new request leaves it: a WRITE of it does
not come in. -/
theorem Sim.block_nbd (h : Sim s ms) {message : NbdMessage} (hrule : TakesRequest s (.nbd message))
    {c i : ℕ} (hc : Active s c) (hi : i < s.count c) :
    block (storageAfter (ms ++ [message])) (firstBlock (s.req c) + i) =
      block (storageAfter ms) (firstBlock (s.req c) + i) := by
  obtain ⟨-, hw, hover⟩ := hrule
  rw [storageAfter_snoc]
  refine handle_outside hw fun hwrite j hj heq => ?_
  have := (hover c hc ((h.whole c hc.1).overlap hw (by rwa [← count_eq_blocks]) hj heq)).2
  rw [hwrite] at this
  exact absurd this (by decide)

/-- What a new WRITE is about to change is up to date. -/
theorem Sim.home_nbd (h : Sim s ms) {message : NbdMessage} (hrule : TakesRequest s (.nbd message))
    (hwrite : message.nbdReq.reqType = NBD_CMD_WRITE) {i : ℕ} (hi : i < blocks message.nbdReq) :
    s.home (firstBlock message.nbdReq + i) =
      block (storageAfter ms) (firstBlock message.nbdReq + i) := by
  obtain ⟨-, hw, hover⟩ := hrule
  refine h.settled _ (hw.block_lt hi) fun c j hf _ heq => ?_
  obtain ⟨hc, hj⟩ := h.inv.unhandled_active hf
  have := (hover c hc ((h.whole c hc.1).overlap hw (by rwa [← count_eq_blocks]) hi heq.symm)).2
  rw [hwrite] at this
  exact absurd this (by decide)

theorem sim_nbd {message : NbdMessage} (h : Sim s ms) (hrule : TakesRequest s (.nbd message))
    (hfew : FewActive s (.nbd message)) (hs : s.step (.nbd message) = some s') :
    Sim s' (ms ++ [message]) := by
  have hinv := inv_nbd h.inv hfew hs
  have hcreated := created_nbd hs
  have hext := extends_nbd hs
  have hlength := h.length
  have hnew : s'.req s.disp.created = message.nbdReq := by
    rw [req, host_nbd_new hs]
    rfl
  have hold {c : ℕ} (hc : c < s.disp.created) : s'.req c = s.req c := by
    rw [req, req, host_nbd_old hs hc]
  have htake {c : ℕ} (hc : c ≤ s.disp.created) : (ms ++ [message]).take c = ms.take c :=
    List.take_append_of_le_length (by omega)
  have hall : ms.take s.disp.created = ms := List.take_of_length_le (by omega)
  have hcases {c : ℕ} (hc : c < s'.disp.created) : c < s.disp.created ∨ c = s.disp.created := by
    omega
  have hactive {c : ℕ} (hc : Active s' c) : Active s c ∨ c = s.disp.created := by
    obtain ⟨-, rfl⟩ := nbd_cases hs
    exact (hcases hc.1).imp (fun hlt => ⟨hlt, hc.2⟩) id
  have hunhandled {c i : ℕ} : (c, i) ∈ s'.unhandled ↔
      (c = s.disp.created ∧ i < s'.count s.disp.created) ∨ (c, i) ∈ s.unhandled := by
    rw [h.inv.unhandled_nbd hs, Multiset.mem_add]
    refine or_congr_left ?_
    simp only [Multiset.mem_map, Multiset.mem_range, Prod.mk.injEq]
    exact ⟨fun ⟨j, hj, hc, hji⟩ => ⟨hc.symm, hji ▸ hj⟩, fun ⟨hc, hi⟩ => ⟨i, hi, hc.symm, rfl⟩⟩
  have hcount : s'.count s.disp.created = blocks message.nbdReq := by
    rw [count_eq_blocks, hnew]
  have htypes := hrule.1
  have hw := hrule.2.1
  have hhome : s'.home = s.home := by
    obtain ⟨-, rfl⟩ := nbd_cases hs
    rfl
  constructor
  case inv => exact hinv
  case length => rw [List.length_append, hlength, hcreated]; rfl
  case means =>
    intro c m hget
    rcases Nat.lt_or_ge c ms.length with hlt | hge
    · rw [List.getElem?_append_left hlt] at hget
      rw [host_nbd_old hs (by omega)]
      exact h.means c m hget
    · have hc : c = s.disp.created := by
        have := (List.getElem?_eq_some_iff.mp hget).1
        rw [List.length_append, List.length_singleton] at this
        omega
      subst hc
      rw [← hlength, List.getElem?_concat_length] at hget
      obtain rfl := Option.some.inj hget
      rw [host_nbd_new hs]
      exact ⟨rfl, rfl, rfl, rfl, fun _ => rfl⟩
  case types =>
    intro c hc
    rcases hcases hc with hc | rfl
    · rw [hold hc]
      exact h.types c hc
    · rw [hnew]
      exact htypes
  case whole =>
    intro c hc
    rcases hcases hc with hc | rfl
    · rw [hold hc]
      exact h.whole c hc
    · rw [hnew]
      exact hw
  case apart =>
    intro c c' hc hc' hne hover
    rcases hactive hc with hc | rfl
    · rw [hold hc.1] at hover ⊢
      rcases hactive hc' with hc' | rfl
      · rw [hold hc'.1] at hover ⊢
        exact h.apart c c' hc hc' hne hover
      · rw [hnew] at hover ⊢
        exact hrule.2.2 c hc hover
    · rcases hactive hc' with hc' | rfl
      · rw [hold hc'.1, hnew] at hover ⊢
        exact (hrule.2.2 c' hc' ⟨hover.2, hover.1⟩).symm
      · exact absurd rfl hne
  case awaited =>
    intro c i hf hwrite
    rw [hhome]
    rcases hunhandled.mp hf with ⟨rfl, hi⟩ | hf
    · rw [hnew] at hwrite ⊢
      rw [htake (Nat.le_refl _), hall]
      exact h.home_nbd hrule hwrite (hcount ▸ hi)
    · have hc := (h.inv.unhandled_active hf).1.1
      rw [hold hc] at hwrite ⊢
      rw [htake (Nat.le_of_lt hc)]
      exact h.awaited c i hf hwrite
  case settled =>
    intro f hf hnone
    rw [hhome, storageAfter_snoc, handle_outside hw]
    · refine h.settled f hf fun c i hmem hwrite => ?_
      have hc := (h.inv.unhandled_active hmem).1.1
      rw [← hold hc] at hwrite ⊢
      exact hnone c i (hunhandled.mpr (Or.inr hmem)) hwrite
    · intro hwrite i hi
      rw [← hnew]
      exact hnone _ i (hunhandled.mpr (Or.inl ⟨rfl, hcount ▸ hi⟩)) (by rw [hnew]; exact hwrite)
  case reads =>
    intro c hc hread i hi
    rcases hactive hc with hc | rfl
    · rw [hold hc.1] at hread ⊢
      rw [hext.count hc.1] at hi
      rw [h.block_nbd hrule hc hi, htake (Nat.le_of_lt hc.1)]
      exact h.reads c hc hread i hi
    · rw [hnew] at hread
      rw [htake (Nat.le_refl _), hall, storageAfter_snoc, handle_read hread]
  case writes =>
    intro c hc hwrite i hi
    rcases hactive hc with hc | rfl
    · rw [hold hc.1] at hwrite ⊢
      rw [hext.count hc.1] at hi
      rw [h.block_nbd hrule hc hi]
      exact h.writes c hc hwrite i hi
    · rw [hnew] at hwrite ⊢
      rw [storageAfter_snoc]
      exact handle_write_inside hw hwrite (hcount ▸ hi)
  case payload =>
    intro m hm hwrite
    have hm : m ∈ s.wire := by
      obtain ⟨-, rfl⟩ := nbd_cases hs
      exact hm
    have hc := (h.inv.unhandled_active (mem_unhandled_message hm)).1.1
    rw [hold hc] at hwrite ⊢
    exact h.payload m hm hwrite
  case data =>
    intro r hr hread
    have hr : r ∈ s.pending := by
      obtain ⟨-, rfl⟩ := nbd_cases hs
      exact hr
    have hc := (h.inv.reply_active hr).1
    rw [hold hc] at hread ⊢
    rw [htake (Nat.le_of_lt hc)]
    exact h.data r hr hread
  case buffer =>
    intro c i hmem hread
    have hmem : (c, i) ∈ s.read := by
      obtain ⟨-, rfl⟩ := nbd_cases hs
      exact hmem
    have hc := ((h.inv.ledger c i).mp (mem_ledger_read hmem)).1
    rw [hold hc] at hread ⊢
    rw [htake (Nat.le_of_lt hc)]
    exact h.buffer c i hmem hread
  case done =>
    intro e he
    have he : e ∈ s.disp.completed := by
      obtain ⟨-, rfl⟩ := nbd_cases hs
      exact he
    obtain ⟨m, hget, hreply⟩ := h.done e he
    have hlt := (List.getElem?_eq_some_iff.mp hget).1
    rw [List.getElem?_append_left hlt, htake (by omega)]
    exact ⟨m, hget, hreply⟩

/-! ### Every step -/

theorem Sim.internal {l : Label} (h : Sim s ms) (hc : Contract s l) (hl : l.takes = [])
    (hs : s.step l = some s') : Sim s' ms := by
  obtain ⟨hhonest, hstale⟩ := hc.rules h.inv
  cases l with
  | nbd message => cases hl
  | async => exact sim_async h hs
  | test k seen => exact sim_test h hstale hs
  | send k junk => exact sim_send h hs
  | answer k header data => exact sim_answer h hc.serves hhonest hs
  | iot sockfd cuts => exact sim_iot h hc.peeks hs

/-- **Every step keeps the simulation**, the local server given what the step takes. -/
theorem sim_step {l : Label} (h : Sim s ms) (hc : Contract s l) (hs : s.step l = some s') :
    Sim s' (ms ++ l.takes) := by
  cases l with
  | nbd message => exact sim_nbd h hc.requests hc.few hs
  | async | test k seen | send k junk | answer k header data | iot sockfd cuts =>
    show Sim s' (ms ++ [])
    rw [List.append_nil]
    exact h.internal hc rfl hs

end PrivateCloud.Dispatch.System
