import PrivateCloud.Nbd.Comm

/-! The local server: `Handle` in `main.cpp`.

One process, one storage, one request at a time: what the other servers are to be
indistinguishable from. `replies` and `storageAfter` are what a list of requests is
answered with and leaves behind; what follows says it block by block, which is how the
requests of the other servers are cut. -/
namespace PrivateCloud.Local
open Nbd

/-- `StorageSize` -/
def storageSize : ℕ := 0x10000000

/-- The message as it is answered: the buffer of a READ filled from the storage. -/
def filled (message : NbdMessage) (storage : Memory) : NbdMessage :=
  let req := message.nbdReq
  if req.reqType = NBD_CMD_READ then
    {message with nbdReq := {req with
      dataBuf := req.dataBuf.write 0 (storage.read req.offset.toNat req.dataLen.toNat)}}
  else message

/-- The storage, with the buffer of a WRITE copied into it. -/
def stored (req : NbdRequest) (storage : Memory) : Memory :=
  if req.reqType = NBD_CMD_WRITE then
    storage.write req.offset.toNat (req.dataBuf.read 0 req.dataLen.toNat)
  else storage

/-- `Handle`, after `NbdRequestRead`: the reply, and the storage after it. -/
def handle (message : NbdMessage) (storage : Memory) : List UInt8 × Memory :=
  (nbdRequestDone (filled message storage) 0, stored message.nbdReq storage)

/-- One request after the other. -/
def run (storage : Memory) : List NbdMessage → List (List UInt8) × Memory
  | [] => ([], storage)
  | message :: rest =>
    let served := handle message storage
    let after := run served.2 rest
    (served.1 :: after.1, after.2)

/-- What these requests are answered with, from a storage of zeros on. -/
def replies (messages : List NbdMessage) : List (List UInt8) := (run (fun _ => 0) messages).1

/-- What they make of it. -/
def storageAfter (messages : List NbdMessage) : Memory := (run (fun _ => 0) messages).2

theorem run_append (storage : Memory) (front rest : List NbdMessage) :
    run storage (front ++ rest) =
      ((run storage front).1 ++ (run (run storage front).2 rest).1,
        (run (run storage front).2 rest).2) := by
  induction front generalizing storage with
  | nil => rfl
  | cons message front ih =>
    rw [List.cons_append, run, ih]
    rfl

theorem run_length (storage : Memory) (messages : List NbdMessage) :
    (run storage messages).1.length = messages.length := by
  induction messages generalizing storage with
  | nil => rfl
  | cons message rest ih => rw [run, List.length_cons, List.length_cons, ih]

theorem run_snoc (storage : Memory) (messages : List NbdMessage) (message : NbdMessage) :
    run storage (messages ++ [message]) =
      ((run storage messages).1 ++ [(handle message (run storage messages).2).1],
        (handle message (run storage messages).2).2) := run_append storage messages [message]

theorem storageAfter_snoc (messages : List NbdMessage) (message : NbdMessage) :
    storageAfter (messages ++ [message]) = (handle message (storageAfter messages)).2 :=
  congrArg Prod.snd (run_snoc (fun _ => 0) messages message)

theorem replies_snoc (messages : List NbdMessage) (message : NbdMessage) :
    replies (messages ++ [message]) =
      replies messages ++ [(handle message (storageAfter messages)).1] :=
  congrArg Prod.fst (run_snoc (fun _ => 0) messages message)

/-- A request is answered out of what those before it left. -/
theorem replies_getElem? {messages : List NbdMessage} {c : ℕ} {message : NbdMessage}
    (h : messages[c]? = some message) :
    (replies messages)[c]? = some (handle message (storageAfter (messages.take c))).1 := by
  obtain ⟨hlt, hget⟩ := List.getElem?_eq_some_iff.mp h
  have hsplit : messages = messages.take c ++ message :: messages.drop (c + 1) := by
    rw [← hget, List.getElem_cons_drop, List.take_append_drop]
  have hlen : (run (fun _ => 0) (messages.take c)).1.length = c := by
    rw [run_length, List.length_take, Nat.min_eq_left (Nat.le_of_lt hlt)]
  have hreplies : replies messages = (run (fun _ => 0) (messages.take c)).1 ++
      (run (storageAfter (messages.take c)) (message :: messages.drop (c + 1))).1 := by
    rw [replies]
    conv_lhs => rw [hsplit, run_append]
    rfl
  rw [hreplies, List.getElem?_append_right (Nat.le_of_eq hlen), hlen, Nat.sub_self]
  rfl

/-! ### Block by block -/

/-- Block `f` of a storage. -/
def block (storage : Memory) (f : ℕ) : List UInt8 := storage.read (f * 1024) 1024

/-- Piece `i` of a request's buffer. -/
def piece (req : NbdRequest) (i : ℕ) : List UInt8 := req.dataBuf.read (i * 1024) 1024

def firstBlock (req : NbdRequest) : ℕ := req.offset.toNat / 1024

def blocks (req : NbdRequest) : ℕ := req.dataLen.toNat / 1024

/-- The request is of whole blocks, at least one, inside the storage. -/
structure WholeBlocks (req : NbdRequest) : Prop where
  offset : req.offset.toNat % 1024 = 0
  dataLen : req.dataLen.toNat % 1024 = 0
  pos : 1024 ≤ req.dataLen.toNat
  inside : req.offset.toNat + req.dataLen.toNat ≤ storageSize

instance (req : NbdRequest) : Decidable (WholeBlocks req) :=
  decidable_of_iff (req.offset.toNat % 1024 = 0 ∧ req.dataLen.toNat % 1024 = 0 ∧
      1024 ≤ req.dataLen.toNat ∧ req.offset.toNat + req.dataLen.toNat ≤ storageSize)
    ⟨fun ⟨h1, h2, h3, h4⟩ => ⟨h1, h2, h3, h4⟩, fun ⟨h1, h2, h3, h4⟩ => ⟨h1, h2, h3, h4⟩⟩

/-- Two requests have a byte of the storage in common. -/
def Overlap (req req' : NbdRequest) : Prop :=
  req.offset.toNat < req'.offset.toNat + req'.dataLen.toNat ∧
    req'.offset.toNat < req.offset.toNat + req.dataLen.toNat

instance (req req' : NbdRequest) : Decidable (Overlap req req') :=
  inferInstanceAs (Decidable (_ ∧ _))

namespace WholeBlocks
variable {req req' : NbdRequest}

theorem offset_eq (h : WholeBlocks req) : req.offset.toNat = firstBlock req * 1024 := by
  have := h.offset
  simp only [firstBlock]
  omega

theorem dataLen_eq (h : WholeBlocks req) : req.dataLen.toNat = blocks req * 1024 := by
  have := h.dataLen
  simp only [blocks]
  omega

theorem block_lt (h : WholeBlocks req) {i : ℕ} (hi : i < blocks req) : firstBlock req + i < 2 ^ 18 := by
  have h1 := h.offset_eq
  have h2 := h.dataLen_eq
  have h3 := h.inside
  simp only [storageSize] at h3
  omega

/-- A block in common is bytes in common. -/
theorem overlap (h : WholeBlocks req) (h' : WholeBlocks req') {i i' : ℕ} (hi : i < blocks req)
    (hi' : i' < blocks req') (heq : firstBlock req + i = firstBlock req' + i') : Overlap req req' := by
  have h1 := h.offset_eq
  have h2 := h.dataLen_eq
  have h3 := h'.offset_eq
  have h4 := h'.dataLen_eq
  unfold Overlap
  omega

end WholeBlocks

variable {message : NbdMessage} {storage storage' : Memory}

section Filled
variable (message : NbdMessage) (storage : Memory)

theorem filled_reply : (filled message storage).reply = message.reply := by
  simp only [filled]
  split <;> rfl

theorem filled_reqType : (filled message storage).nbdReq.reqType = message.nbdReq.reqType := by
  simp only [filled]
  split <;> rfl

theorem filled_dataLen : (filled message storage).nbdReq.dataLen = message.nbdReq.dataLen := by
  simp only [filled]
  split <;> rfl

theorem filled_read (h : message.nbdReq.reqType = NBD_CMD_READ) :
    (filled message storage).nbdReq.dataBuf.read 0 message.nbdReq.dataLen.toNat =
      storage.read message.nbdReq.offset.toNat message.nbdReq.dataLen.toNat := by
  simp only [filled, if_pos h]
  refine Memory.read_congr fun i hi => ?_
  rw [Memory.write_read_inside _ _ (by omega) (by omega)]
  congr 1
  omega

end Filled

theorem handle_read (h : message.nbdReq.reqType = NBD_CMD_READ) :
    (handle message storage).2 = storage := by
  have hne : ¬message.nbdReq.reqType = NBD_CMD_WRITE := by
    rw [h]
    decide
  simp only [handle, stored, if_neg hne]

theorem handle_write (h : message.nbdReq.reqType = NBD_CMD_WRITE) : (handle message storage).2 =
    storage.write message.nbdReq.offset.toNat
      (message.nbdReq.dataBuf.read 0 message.nbdReq.dataLen.toNat) := by
  simp only [handle, stored, if_pos h]

/-- The blocks of a WRITE. -/
theorem handle_write_inside (hw : WholeBlocks message.nbdReq)
    (h : message.nbdReq.reqType = NBD_CMD_WRITE) {i : ℕ} (hi : i < blocks message.nbdReq) :
    block (handle message storage).2 (firstBlock message.nbdReq + i) = piece message.nbdReq i := by
  have hlen := hw.dataLen_eq
  rw [handle_write h, block, piece, Nat.add_mul, ← hw.offset_eq,
    Memory.read_write_inside _ _ (by omega), Nat.zero_add]

/-- The other blocks. -/
theorem handle_outside (hw : WholeBlocks message.nbdReq) {f : ℕ}
    (hf : message.nbdReq.reqType = NBD_CMD_WRITE →
      ∀ i < blocks message.nbdReq, f ≠ firstBlock message.nbdReq + i) :
    block (handle message storage).2 f = block storage f := by
  by_cases hwrite : message.nbdReq.reqType = NBD_CMD_WRITE
  · have hoff := hw.offset_eq
    have hlen := hw.dataLen_eq
    rw [handle_write hwrite]
    refine Memory.read_write_disjoint _ ?_
    rw [Memory.read_length]
    have hside : f < firstBlock message.nbdReq ∨
        firstBlock message.nbdReq + blocks message.nbdReq ≤ f := by
      by_contra hcon
      exact hf hwrite (f - firstBlock message.nbdReq) (by omega) (by omega)
    omega
  · simp only [handle, stored, if_neg hwrite]

/-- **What a request is answered with**: the same as any message with its handle, its
length and, of a READ, the blocks of the storage for data. -/
theorem handle_reply (hw : WholeBlocks message.nbdReq) {done : NbdMessage}
    (hreply : done.reply = message.reply) (htype : done.nbdReq.reqType = message.nbdReq.reqType)
    (hlen : done.nbdReq.dataLen = message.nbdReq.dataLen)
    (hdata : message.nbdReq.reqType = NBD_CMD_READ → ∀ i < blocks message.nbdReq,
      piece done.nbdReq i = block storage (firstBlock message.nbdReq + i)) :
    nbdRequestDone done 0 = (handle message storage).1 := by
  have heq := hw.dataLen_eq
  refine nbdRequestDone_congr 0 (hreply.trans (filled_reply ..).symm) (htype.trans (filled_reqType ..).symm)
    (hlen.trans (filled_dataLen ..).symm) fun hread => ?_
  rw [htype] at hread
  rw [hlen, filled_read _ _ hread, heq]
  refine Memory.read_pieces fun i hi => ?_
  have hpiece := hdata hread i hi
  rw [piece, block, Nat.add_mul, ← hw.offset_eq] at hpiece
  rw [Nat.zero_add, hpiece]

/-- Storages that agree on the blocks of a request answer it alike. -/
theorem handle_congr (hw : WholeBlocks message.nbdReq)
    (h : ∀ i < blocks message.nbdReq, block storage (firstBlock message.nbdReq + i) =
      block storage' (firstBlock message.nbdReq + i)) :
    (handle message storage).1 = (handle message storage').1 := by
  by_cases hread : message.nbdReq.reqType = NBD_CMD_READ
  · have hoff := hw.offset_eq
    have hlen := hw.dataLen_eq
    have hsame : storage.read message.nbdReq.offset.toNat message.nbdReq.dataLen.toNat =
        storage'.read message.nbdReq.offset.toNat message.nbdReq.dataLen.toNat := by
      rw [hlen]
      refine Memory.read_pieces fun i hi => ?_
      have hblock := h i hi
      rwa [block, block, Nat.add_mul, ← hoff] at hblock
    simp only [handle, filled, if_pos hread, hsame]
  · simp only [handle, filled, if_neg hread]

end PrivateCloud.Local
