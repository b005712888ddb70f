import PrivateCloud.Host.RequestHost
import PrivateCloud.Library.Machine

/-! The reactor's two handlers: `RequestDispatcher.cpp`.

`nbdRequestsHandle` reads a request, gives it the next uid and enters it in the map of
active requests; `iotHandle` looks up whose reply lies on a node's socket, lets the
request read it and, with the last fragment, answers the client, frees the message and
forgets the request.

Requests are told apart by the order they were created in, which nothing in the source
knows: there a request is its uid, and the uid comes around again after `2^32`
requests. A request stays in `host` after it was freed, so that a task that still holds
a pointer to it has something to be wrong about; `freed` says that it was. -/
namespace PrivateCloud.Dispatch
open Nbd Host

structure Dispatcher where
  /-- The static counter in `RequestHost::Create`. -/
  reqUid : UInt32
  created : ℕ
  host : ℕ → RequestHost
  /-- `m_activeRequests` -/
  activeRequests : UInt32 → Option ℕ
  /-- The calls of `NbdRequestDone` with what each put on the NBD socket, oldest first. -/
  completed : List (ℕ × List UInt8)

namespace Dispatcher

def init : Dispatcher where
  reqUid := 0
  created := 0
  host := fun _ => ⟨⟨⟨0, 0, 0, fun _ => 0⟩, ⟨0, 0, []⟩⟩, 0, ∅⟩
  activeRequests := fun _ => none
  completed := []

/-- `NbdRequestDone` was called for the request, which frees it. -/
def freed (d : Dispatcher) (c : ℕ) : Bool := c ∈ d.completed.map Prod.fst

/-- `NbdRequestsHandle` up to `Distribute`, with the message `NbdRequestRead` returned. -/
def nbdRequestsHandle (message : NbdMessage) (d : Dispatcher) : Dispatcher :=
  let req := RequestHost.create d.reqUid message
  { d with
    reqUid := d.reqUid + 1
    created := d.created + 1
    host := Function.update d.host d.created req
    activeRequests := Function.update d.activeRequests req.reqUid (some d.created) }

/-- `IotHandle`. The subscript inserts a null entry where there is none, and the next
thing done with it is to call through it. -/
def iotHandle (s : Socket) (d : Dispatcher) : Except Fault (Dispatcher × Socket) :=
  match RequestHost.peek s with
  | .error fault => .error fault
  | .ok (reqUid, s) =>
    match d.activeRequests reqUid with
    | none => .error .nullRequest
    | some c =>
      match (d.host c).readReaply s with
      | .error fault => .error fault
      | .ok (req, s) =>
        let d := {d with host := Function.update d.host c req}
        if req.fragmentationSet = ∅ then
          .ok ({ d with
            activeRequests := Function.update d.activeRequests reqUid none
            completed := d.completed ++ [(c, nbdRequestDone req.nbqReq 0)] }, s)
        else .ok (d, s)

/-- Who is freed after one more `NbdRequestDone`, or none. -/
theorem freed_iff {d d' : Dispatcher} {c : ℕ} {bytes : List UInt8} {p : Prop} [Decidable p]
    (h : d'.completed = if p then d.completed ++ [(c, bytes)] else d.completed) (b : ℕ) :
    d'.freed b = true ↔ d.freed b = true ∨ (b = c ∧ p) := by
  simp only [freed, h, decide_eq_true_eq]
  split
  case isTrue hp => simp [hp]
  case isFalse hp => simp [hp]

end Dispatcher

/-! ### Reading a reply off the socket -/

/-- A request after a reply: the data, of a READ, in its place in the buffer, and the
fragment crossed off. -/
def consume (h : RequestHost) (header : AtlasHeader) (data : List UInt8) : RequestHost :=
  { h with
    nbqReq := {h.nbqReq with nbdReq := {h.nbqReq.nbdReq with
      dataBuf := h.nbqReq.nbdReq.dataBuf.write (header.fragmentUid * fragSize).toNat data}}
    fragmentationSet := h.fragmentationSet.erase header.fragmentUid.toNat }

/-- How much data follows the header of a reply to this request. -/
def dataLength (h : RequestHost) : ℕ := if h.nbqReq.nbdReq.reqType = NBD_CMD_READ then 1024 else 0

/-- The data of a reply has room in the buffer. -/
def Fits (h : RequestHost) (header : AtlasHeader) : Prop :=
  h.nbqReq.nbdReq.reqType = NBD_CMD_READ →
    (header.fragmentUid * fragSize).toNat + 1024 ≤ h.dataLen.toNat

instance (h : RequestHost) (header : AtlasHeader) : Decidable (Fits h header) :=
  inferInstanceAs (Decidable (_ → _))

theorem peek_store (header : AtlasHeader) (tail : List UInt8) (cuts : ℕ → ℕ) (hcut : 4 ≤ cuts 0) :
    ∃ cuts', RequestHost.peek ⟨header.store ++ tail, cuts⟩ =
      .ok (header.requestUid, ⟨header.store ++ tail, cuts'⟩) := by
  have hlen : 4 ≤ (header.store ++ tail).length := by
    rw [List.length_append, AtlasHeader.store_length]
    simp only [sizeofAtlasHeader]
    omega
  obtain ⟨cuts', hpeek⟩ := Socket.readLoop_peek 4 4 ⟨header.store ++ tail, cuts⟩ (Nat.le_refl 4) hlen
    (by decide) hcut
  have htake : (header.store ++ tail).take 4 = Bytes.toLE 4 header.requestUid.toNat := by
    rw [List.take_append_of_le_length (by rw [AtlasHeader.store_length]; decide), AtlasHeader.store_take]
  refine ⟨cuts', ?_⟩
  simp only [RequestHost.peek, RequestHost.recvAll, hpeek, htake, loadU32_toLE]

theorem write_nil (m : Memory) (a : ℕ) : m.write a [] = m :=
  funext fun x => Memory.write_outside m (by simp; omega)

/-- **Reading a reply**: header and data are taken off the socket, nothing behind
them; data without room in the buffer is a fault. -/
theorem readReaply_store (h : RequestHost) (header : AtlasHeader) (data rest : List UInt8)
    (cuts : ℕ → ℕ) (hdata : data.length = dataLength h) :
    ∃ cuts', h.readReaply ⟨header.store ++ (data ++ rest), cuts⟩ =
      if Fits h header then .ok (consume h header data, ⟨rest, cuts'⟩) else .error .overrun := by
  obtain ⟨cuts₁, hheader⟩ := Socket.readLoop_append header.store (data ++ rest) cuts
    header.store_length
  by_cases hread : h.nbqReq.nbdReq.reqType = NBD_CMD_READ
  · rw [dataLength, if_pos hread] at hdata
    have hlen : data.length = fragSize.toNat := hdata
    obtain ⟨cuts₂, hdat⟩ := Socket.readLoop_append data rest cuts₁ hlen
    refine ⟨cuts₂, ?_⟩
    simp only [RequestHost.readReaply, RequestHost.receiveData, RequestHost.recvAll, hheader,
      AtlasHeader.load_store, if_pos hread, hdat]
    by_cases hfits : (header.fragmentUid * fragSize).toNat + fragSize.toNat ≤ h.dataLen.toNat
    · have hroom : Fits h header := fun _ => hfits
      rw [if_pos hfits, if_pos hroom]
      rfl
    · have hroom : ¬Fits h header := fun hf => hfits (hf hread)
      rw [if_neg hfits, if_neg hroom]
  · rw [dataLength, if_neg hread] at hdata
    obtain rfl := List.length_eq_zero_iff.mp hdata
    refine ⟨cuts₁, ?_⟩
    rw [List.nil_append] at hheader
    simp only [RequestHost.readReaply, RequestHost.receiveData, RequestHost.recvAll, List.nil_append,
      hheader, AtlasHeader.load_store, if_neg hread]
    have hroom : Fits h header := fun hr => absurd hr hread
    rw [if_pos hroom, consume, write_nil]

/-! ### What one handler call can do -/

theorem peek_bytes {s s' : Socket} {reqUid : UInt32} (h : RequestHost.peek s = .ok (reqUid, s')) :
    s'.bytes = s.bytes := by
  simp only [RequestHost.peek] at h
  split at h
  case h_1 => cases h
  case h_2 bytes t hloop =>
    obtain ⟨-, rfl⟩ := Prod.mk.inj (Except.ok.inj h)
    exact Socket.readLoop_peek_bytes 4 4 hloop

/-- The header at the front of what lies on a socket. -/
def front (bytes : List UInt8) : AtlasHeader := AtlasHeader.load (bytes.take sizeofAtlasHeader)

/-- A reply changes a request's buffer and its set, the set by the fragment it names. -/
theorem readReaply_cases {h req : RequestHost} {s s' : Socket} (hr : h.readReaply s = .ok (req, s')) :
    req.reqUid = h.reqUid ∧ req.dataLen = h.dataLen ∧
      req.fragmentationSet = h.fragmentationSet.erase (front s.bytes).fragmentUid.toNat := by
  simp only [RequestHost.readReaply] at hr
  split at hr
  case h_1 => cases hr
  case h_2 bytes t hbytes =>
    have hfront : AtlasHeader.load bytes = front s.bytes := by
      rw [front, Socket.readLoop_some (Nat.le_refl _) hbytes]
    split at hr
    case h_1 => cases hr
    case h_2 message u hreceive =>
      obtain ⟨rfl, rfl⟩ := Prod.mk.inj (Except.ok.inj hr)
      refine ⟨rfl, ?_, by rw [hfront]⟩
      simp only [RequestHost.receiveData] at hreceive
      split at hreceive
      case isTrue =>
        split at hreceive
        case h_1 => cases hreceive
        case h_2 =>
          split at hreceive
          case isTrue =>
            obtain ⟨rfl, rfl⟩ := Prod.mk.inj (Except.ok.inj hreceive)
            rfl
          case isFalse => cases hreceive
      case isFalse =>
        obtain ⟨rfl, rfl⟩ := Prod.mk.inj (Except.ok.inj hreceive)
        rfl

namespace Dispatcher

/-- Whatever lies on the socket: the request under the uid that is peeked reads it. -/
theorem iotHandle_cases {d d' : Dispatcher} {s s' : Socket} (hd : d.iotHandle s = .ok (d', s')) :
    ∃ u t c req, RequestHost.peek s = .ok (u, t) ∧ d.activeRequests u = some c ∧
      req.reqUid = (d.host c).reqUid ∧ req.dataLen = (d.host c).dataLen ∧
      req.fragmentationSet =
        (d.host c).fragmentationSet.erase (front s.bytes).fragmentUid.toNat ∧
      d' = { d with
        host := Function.update d.host c req
        activeRequests := if req.fragmentationSet = ∅ then Function.update d.activeRequests u none
          else d.activeRequests
        completed := if req.fragmentationSet = ∅ then
          d.completed ++ [(c, nbdRequestDone req.nbqReq 0)] else d.completed } := by
  simp only [iotHandle] at hd
  split at hd
  case h_1 => cases hd
  case h_2 u t hpeek =>
    split at hd
    case h_1 => cases hd
    case h_2 c hc =>
      split at hd
      case h_1 => cases hd
      case h_2 req t' hread =>
        obtain ⟨huid, hlen, hset⟩ := readReaply_cases hread
        rw [peek_bytes hpeek] at hset
        refine ⟨u, t, c, req, hpeek, hc, huid, hlen, hset, ?_⟩
        split at hd
        case isTrue hempty =>
          rw [if_pos hempty, if_pos hempty]
          exact (Prod.mk.inj (Except.ok.inj hd)).1.symm
        case isFalse hrest =>
          rw [if_neg hrest, if_neg hrest]
          exact (Prod.mk.inj (Except.ok.inj hd)).1.symm

end Dispatcher

namespace Dispatcher

/-- What `IotHandle` does with a reply after it peeked the uid of request `c`. -/
def handleReply (d : Dispatcher) (reqUid : UInt32) (c : ℕ) (header : AtlasHeader)
    (data : List UInt8) : Dispatcher :=
  let req := consume (d.host c) header data
  let d := {d with host := Function.update d.host c req}
  if req.fragmentationSet = ∅ then
    { d with
      activeRequests := Function.update d.activeRequests reqUid none
      completed := d.completed ++ [(c, nbdRequestDone req.nbqReq 0)] }
  else d

section
variable (d : Dispatcher) (reqUid : UInt32) (c : ℕ) (header : AtlasHeader) (data : List UInt8)

/-- The reply is the last one that the request waits for. -/
def Last : Prop := (d.host c).fragmentationSet.erase header.fragmentUid.toNat = ∅

instance : Decidable (Last d c header) := inferInstanceAs (Decidable (_ = _))

theorem handleReply_eq : d.handleReply reqUid c header data = { d with
    host := Function.update d.host c (consume (d.host c) header data)
    activeRequests :=
      if Last d c header then Function.update d.activeRequests reqUid none else d.activeRequests
    completed := if Last d c header then
      d.completed ++ [(c, nbdRequestDone (consume (d.host c) header data).nbqReq 0)]
      else d.completed } := by
  unfold handleReply
  dsimp only
  by_cases h : Last d c header
  · rw [if_pos h, if_pos h, if_pos (show (consume (d.host c) header data).fragmentationSet = ∅ from h)]
  · rw [if_neg h, if_neg h, if_neg (show ¬(consume (d.host c) header data).fragmentationSet = ∅ from h)]

theorem handleReply_host : (d.handleReply reqUid c header data).host =
    Function.update d.host c (consume (d.host c) header data) := by
  rw [handleReply_eq]

theorem handleReply_freed (b : ℕ) : (d.handleReply reqUid c header data).freed b = true ↔
    d.freed b = true ∨ (b = c ∧ Last d c header) :=
  freed_iff (by rw [handleReply_eq]) b

end

/-- A uid nobody waits for. -/
theorem iotHandle_unknown {d : Dispatcher} {s s' : Socket} {reqUid : UInt32}
    (hpeek : RequestHost.peek s = .ok (reqUid, s')) (hnone : d.activeRequests reqUid = none) :
    d.iotHandle s = .error .nullRequest := by
  simp only [iotHandle, hpeek, hnone]

/-- **One reply**, handled by the request entered under the uid that was peeked. -/
theorem iotHandle_peeked {d : Dispatcher} {header : AtlasHeader} {data rest : List UInt8} {s : Socket}
    {cuts : ℕ → ℕ} {reqUid : UInt32} {c : ℕ}
    (hpeek : RequestHost.peek s = .ok (reqUid, ⟨header.store ++ (data ++ rest), cuts⟩))
    (hc : d.activeRequests reqUid = some c) (hdata : data.length = dataLength (d.host c)) :
    ∃ cuts', d.iotHandle s =
      if Fits (d.host c) header then .ok (d.handleReply reqUid c header data, ⟨rest, cuts'⟩)
      else .error .overrun := by
  obtain ⟨cuts', hread⟩ := readReaply_store (d.host c) header data rest cuts hdata
  refine ⟨cuts', ?_⟩
  simp only [iotHandle, hpeek, hc, hread]
  by_cases hfits : Fits (d.host c) header
  · rw [if_pos hfits, if_pos hfits]
    simp only [handleReply]
    split <;> rfl
  · rw [if_neg hfits, if_neg hfits]

/-- With the uid available whole, the uid peeked is the header's. -/
theorem iotHandle_store (d : Dispatcher) (header : AtlasHeader) (data rest : List UInt8)
    (cuts : ℕ → ℕ) (hcut : 4 ≤ cuts 0) {c : ℕ} (hc : d.activeRequests header.requestUid = some c)
    (hdata : data.length = dataLength (d.host c)) :
    ∃ cuts', d.iotHandle ⟨header.store ++ (data ++ rest), cuts⟩ =
      if Fits (d.host c) header then
        .ok (d.handleReply header.requestUid c header data, ⟨rest, cuts'⟩)
      else .error .overrun := by
  obtain ⟨cuts₁, hpeek⟩ := peek_store header (data ++ rest) cuts hcut
  exact iotHandle_peeked hpeek hc hdata

end Dispatcher
end PrivateCloud.Dispatch
