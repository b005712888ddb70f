import PrivateCloud.Library.Bytes
import PrivateCloud.Library.Memory
import PrivateCloud.Library.Socket

/-! The server's end of the NBD socket: `nbd_comm.c`.

`nbdRequestRead` reads one request and allocates the message that holds it until
`nbdRequestDone` answers and frees it. The host is little-endian, so a field of the
packed wire header is loaded with its bytes the wrong way round and `ntohl`,
`ntohll` turn them. An assertion that fails ends the process (`Abort`); what an
allocated block holds before it is written is up to the allocator
(`Process.garbage`). -/
namespace PrivateCloud.Nbd

def NBD_REQUEST_MAGIC : UInt32 := 0x25609513
def NBD_REPLY_MAGIC : UInt32 := 0x67446698
def NBD_CMD_READ : UInt32 := 0
def NBD_CMD_WRITE : UInt32 := 1

/-! ### Byte order -/

/-- A 32-bit word loaded from memory. -/
def loadU32 (bytes : List UInt8) : UInt32 := UInt32.ofNat (Bytes.ofLE bytes)

def loadU64 (bytes : List UInt8) : UInt64 := UInt64.ofNat (Bytes.ofLE bytes)

def ntohl (x : UInt32) : UInt32 := UInt32.ofNat (Bytes.ofBE (Bytes.toLE 4 x.toNat))

def htonl (x : UInt32) : UInt32 := UInt32.ofNat (Bytes.ofLE (Bytes.toBE 4 x.toNat))

def ntohll (a : UInt64) : UInt64 :=
  let lo := (a &&& 0xffffffff).toUInt32
  let hi := (a >>> 32).toUInt32
  let lo := ntohl lo
  let hi := ntohl hi
  (lo.toUInt64 <<< 32) ||| hi.toUInt64

/-! ### The structures -/

/-- `struct nbd_request` as loaded, every word still in network order. -/
structure RawRequest where
  magic : UInt32
  type : UInt32
  handle : List UInt8
  fromOffset : UInt64
  len : UInt32

def sizeofNbdRequest : ℕ := 28

def RawRequest.load (bytes : List UInt8) : RawRequest where
  magic := loadU32 (Bytes.field bytes 0 4)
  type := loadU32 (Bytes.field bytes 4 4)
  handle := Bytes.field bytes 8 8
  fromOffset := loadU64 (Bytes.field bytes 16 8)
  len := loadU32 (Bytes.field bytes 24 4)

/-- `dataBuf` is the memory from the buffer's first byte on; `dataLen` bytes of it
are allocated. -/
structure NbdRequest where
  reqType : UInt32
  dataLen : UInt32
  offset : UInt64
  dataBuf : Memory

/-- `struct nbd_reply`, its words as stored. -/
structure NbdReply where
  magic : UInt32
  error : UInt32
  handle : List UInt8

/-- `nbd_message_t`: the request the handlers see and the reply it will get. -/
structure NbdMessage where
  nbdReq : NbdRequest
  reply : NbdReply

/-- What `malloc` is asked for in front of the buffer. -/
def offsetofBuffer : ℕ := 44

/-! ### Reading a request -/

inductive Assertion where
  /-- `assert(bytes_read > 0)` -/
  | bytesRead
  /-- `assert(nbd_request.magic == htonl(NBD_REQUEST_MAGIC))` -/
  | requestMagic
  deriving DecidableEq

/-- The socket, and the sizes asked of `malloc` so far, latest first. -/
structure Process where
  socket : Socket
  mallocs : List ℕ
  garbage : ℕ → Memory

/-- The state is the one the assertion was reached in; of a read that did not get all its bytes
it is the one before the read, which may have taken some of them. -/
structure Abort where
  assertion : Assertion
  process : Process

def readAll (count : ℕ) (s : Socket) : Option (List UInt8 × Socket) :=
  s.readLoop false count count

def nbdRequestRead (p : Process) : Except Abort (NbdMessage × Process) :=
  match readAll sizeofNbdRequest p.socket with
  | none => .error ⟨.bytesRead, p⟩
  | some (bytes, socket) =>
    let nbdRequest := RawRequest.load bytes
    let p := {p with socket := socket}
    if nbdRequest.magic ≠ htonl NBD_REQUEST_MAGIC then .error ⟨.requestMagic, p⟩
    else
      let block := p.garbage p.mallocs.length
      let p := {p with mallocs := (offsetofBuffer + (ntohl nbdRequest.len).toNat) :: p.mallocs}
      let reply : NbdReply := ⟨htonl NBD_REPLY_MAGIC, htonl 0, nbdRequest.handle⟩
      let nbdReq : NbdRequest :=
        ⟨ntohl nbdRequest.type, ntohl nbdRequest.len, ntohll nbdRequest.fromOffset, block⟩
      if nbdReq.reqType = NBD_CMD_WRITE then
        match readAll nbdReq.dataLen.toNat p.socket with
        | none => .error ⟨.bytesRead, p⟩
        | some (payload, socket) =>
          .ok (⟨{nbdReq with dataBuf := nbdReq.dataBuf.write 0 payload}, reply⟩, {p with socket := socket})
      else .ok (⟨nbdReq, reply⟩, p)

/-! ### Answering it -/

/-- What `NbdRequestDone` puts on the NBD socket before it frees the message: the
reply and, `dataBuf` lying right behind it, the data of a READ. -/
def nbdRequestDone (message : NbdMessage) (error : UInt32) : List UInt8 :=
  let reply := {message.reply with error := htonl error}
  Bytes.toLE 4 reply.magic.toNat ++ Bytes.toLE 4 reply.error.toNat ++ reply.handle ++
    if message.nbdReq.reqType = NBD_CMD_READ then
      message.nbdReq.dataBuf.read 0 message.nbdReq.dataLen.toNat
    else []

/-- The reply is the request's handle and data, nothing else of it. -/
theorem nbdRequestDone_congr {m m' : NbdMessage} (error : UInt32) (hr : m.reply = m'.reply)
    (ht : m.nbdReq.reqType = m'.nbdReq.reqType) (hl : m.nbdReq.dataLen = m'.nbdReq.dataLen)
    (hd : m.nbdReq.reqType = NBD_CMD_READ → m.nbdReq.dataBuf.read 0 m.nbdReq.dataLen.toNat =
      m'.nbdReq.dataBuf.read 0 m.nbdReq.dataLen.toNat) :
    nbdRequestDone m error = nbdRequestDone m' error := by
  unfold nbdRequestDone
  rw [← hr, ← ht, ← hl]
  by_cases h : m.nbdReq.reqType = NBD_CMD_READ
  · simp only [if_pos h, hd h]
  · simp only [if_neg h]

/-! ### Loads of what a peer stored -/

theorem toNat_loadU32 {bytes : List UInt8} (h : bytes.length = 4) :
    (loadU32 bytes).toNat = Bytes.ofLE bytes := by
  have hlt := Bytes.ofLE_lt bytes
  rw [h] at hlt
  exact UInt32.toNat_ofNat_of_lt' hlt

theorem loadU32_toLE (x : UInt32) : loadU32 (Bytes.toLE 4 x.toNat) = x := by
  apply UInt32.toNat_inj.mp
  rw [toNat_loadU32 (Bytes.toLE_length ..), Bytes.ofLE_toLE]
  exact Nat.mod_eq_of_lt x.toNat_lt

theorem loadU64_toLE (x : UInt64) : loadU64 (Bytes.toLE 8 x.toNat) = x := by
  apply UInt64.toNat_inj.mp
  have hmod : x.toNat % 256 ^ 8 = x.toNat := Nat.mod_eq_of_lt x.toNat_lt
  rw [loadU64, Bytes.ofLE_toLE, hmod]
  exact UInt64.toNat_ofNat_of_lt' x.toNat_lt

theorem loadU32_inj {a b : List UInt8} (ha : a.length = 4) (hb : b.length = 4)
    (h : loadU32 a = loadU32 b) : a = b := by
  have hnat : Bytes.ofLE a = Bytes.ofLE b := by
    rw [← toNat_loadU32 ha, ← toNat_loadU32 hb, h]
  have := Bytes.toLE_ofLE a
  rw [← this, ha, hnat, ← hb, Bytes.toLE_ofLE]

/-- The comparison with `htonl(NBD_REQUEST_MAGIC)` is one of wire bytes. -/
theorem loadU32_eq_htonl (x : UInt32) {bytes : List UInt8} (h : bytes.length = 4) :
    loadU32 bytes = htonl x ↔ bytes = Bytes.toBE 4 x.toNat :=
  ⟨fun he => loadU32_inj h (Bytes.toBE_length ..) he, fun he => by rw [he]; rfl⟩

theorem ntohl_load {bytes : List UInt8} (h : bytes.length = 4) :
    (ntohl (loadU32 bytes)).toNat = Bytes.ofBE bytes := by
  have hlt := Bytes.ofLE_lt bytes.reverse
  rw [List.length_reverse, h] at hlt
  rw [ntohl, toNat_loadU32 h, ← h, Bytes.toLE_ofLE]
  exact UInt32.toNat_ofNat_of_lt' hlt

theorem ntohl_toBE (x : UInt32) : ntohl (loadU32 (Bytes.toBE 4 x.toNat)) = x := by
  apply UInt32.toNat_inj.mp
  rw [ntohl_load (Bytes.toBE_length ..), Bytes.ofBE_toBE]
  exact Nat.mod_eq_of_lt x.toNat_lt

/-- Both halves of a 64-bit word turned and swapped: the whole word turned. -/
theorem ntohll_toBE (x : UInt64) : ntohll (loadU64 (Bytes.toBE 8 x.toNat)) = x := by
  have hx : x.toNat < 2 ^ 64 := x.toNat_lt
  have hsplit := Bytes.toBE_split 4 4 x.toNat
  have hhigh : (Bytes.toBE 4 (x.toNat / 256 ^ 4)).length = 4 := Bytes.toBE_length ..
  have hlow : (Bytes.toBE 4 x.toNat).length = 4 := Bytes.toBE_length ..
  have hfirst := Bytes.ofLE_lt (Bytes.toBE 4 (x.toNat / 256 ^ 4))
  have hsecond := Bytes.ofLE_lt (Bytes.toBE 4 x.toNat)
  rw [hhigh] at hfirst
  rw [hlow] at hsecond
  have hword : (loadU64 (Bytes.toBE 8 x.toNat)).toNat =
      Bytes.ofLE (Bytes.toBE 4 (x.toNat / 256 ^ 4)) + 2 ^ 32 * Bytes.ofLE (Bytes.toBE 4 x.toNat) := by
    rw [loadU64, hsplit, Bytes.ofLE_append, hhigh]
    apply UInt64.toNat_ofNat_of_lt'
    show _ < 2 ^ 64
    omega
  -- The low half in memory is the number's high half, and the other way round.
  have hlo : ((loadU64 (Bytes.toBE 8 x.toNat)) &&& 0xffffffff).toUInt32 =
      loadU32 (Bytes.toBE 4 (x.toNat / 256 ^ 4)) := by
    apply UInt32.toNat_inj.mp
    rw [toNat_loadU32 hhigh, UInt64.toNat_toUInt32, UInt64.toNat_and, hword]
    show (_ &&& (2 ^ 32 - 1)) % 2 ^ 32 = _
    rw [Nat.and_two_pow_sub_one_eq_mod]
    omega
  have hhi : ((loadU64 (Bytes.toBE 8 x.toNat)) >>> 32).toUInt32 = loadU32 (Bytes.toBE 4 x.toNat) := by
    apply UInt32.toNat_inj.mp
    rw [toNat_loadU32 hlow, UInt64.toNat_toUInt32, UInt64.toNat_shiftRight, hword]
    show (_ >>> 32) % 2 ^ 32 = _
    rw [Nat.shiftRight_eq_div_pow]
    omega
  apply UInt64.toNat_inj.mp
  simp only [ntohll, hlo, hhi]
  rw [UInt64.toNat_or, UInt64.toNat_shiftLeft, UInt32.toNat_toUInt64, UInt32.toNat_toUInt64,
    ntohl_load hhigh, ntohl_load hlow, Bytes.ofBE_toBE, Bytes.ofBE_toBE]
  show (x.toNat / 256 ^ 4 % 256 ^ 4) <<< 32 % 2 ^ 64 ||| x.toNat % 256 ^ 4 = x.toNat
  have hshift : (x.toNat / 256 ^ 4 % 256 ^ 4) <<< 32 % 2 ^ 64 = (x.toNat / 2 ^ 32) <<< 32 := by
    rw [Nat.shiftLeft_eq, Nat.shiftLeft_eq]
    omega
  rw [hshift, ← Nat.shiftLeft_add_eq_or_of_lt (by omega), Nat.shiftLeft_eq]
  omega

end PrivateCloud.Nbd
