import PrivateCloud.Nbd.Comm

/-! Request framing.

A client puts requests on the socket one after the other, each the packed
big-endian header followed by its payload, which only a WRITE has. `reads_requests`
says what the server makes of that stream, however `read` cuts it: request after
request it gets exactly what the client sent, and stops at the first byte of the
next one. -/
namespace PrivateCloud.Nbd

/-- A request as its client means it. -/
structure Request where
  type : UInt32
  handle : List UInt8
  fromOffset : UInt64
  len : UInt32
  payload : List UInt8
  handle_length : handle.length = 8
  payload_length : payload.length = if type = NBD_CMD_WRITE then len.toNat else 0

namespace Request

/-- The packed header. -/
def header (r : Request) : List UInt8 :=
  Bytes.toBE 4 NBD_REQUEST_MAGIC.toNat ++ (Bytes.toBE 4 r.type.toNat ++ (r.handle ++
    (Bytes.toBE 8 r.fromOffset.toNat ++ (Bytes.toBE 4 r.len.toNat ++ []))))

def encode (r : Request) : List UInt8 := r.header ++ r.payload

theorem header_length (r : Request) : r.header.length = sizeofNbdRequest := by
  simp only [header, List.length_append, Bytes.toBE_length, r.handle_length, List.length_nil]
  rfl

/-- The header, loaded: every field under the byte order it was stored with. -/
theorem load_header (r : Request) : RawRequest.load r.header =
    ⟨htonl NBD_REQUEST_MAGIC, loadU32 (Bytes.toBE 4 r.type.toNat), r.handle,
      loadU64 (Bytes.toBE 8 r.fromOffset.toNat), loadU32 (Bytes.toBE 4 r.len.toNat)⟩ := by
  have h4 (n : ℕ) : (Bytes.toBE 4 n).length = 4 := Bytes.toBE_length 4 n
  have h8 (n : ℕ) : (Bytes.toBE 8 n).length = 8 := Bytes.toBE_length 8 n
  have h := r.handle_length
  simp only [RawRequest.load, header, RawRequest.mk.injEq]
  refine ⟨?_, ?_, ?_, ?_, ?_⟩
  · rw [Bytes.field_here (h4 _)]
    rfl
  · rw [Bytes.field_skip (by rw [h4]), h4, Bytes.field_here (h4 _)]
  · rw [Bytes.field_skip (by rw [h4]; decide), h4, Bytes.field_skip (by rw [h4]), h4,
      Bytes.field_here h]
  · rw [Bytes.field_skip (by rw [h4]; decide), h4, Bytes.field_skip (by rw [h4]; decide), h4,
      Bytes.field_skip (by rw [h]), h, Bytes.field_here (h8 _)]
  · rw [Bytes.field_skip (by rw [h4]; decide), h4, Bytes.field_skip (by rw [h4]; decide), h4,
      Bytes.field_skip (by rw [h]; decide), h, Bytes.field_skip (by rw [h8]), h8,
      Bytes.field_here (h4 _)]

end Request

/-- The message holds the request the client meant. -/
structure Carries (m : NbdMessage) (r : Request) : Prop where
  reqType : m.nbdReq.reqType = r.type
  dataLen : m.nbdReq.dataLen = r.len
  offset : m.nbdReq.offset = r.fromOffset
  handle : m.reply.handle = r.handle
  payload : r.type = NBD_CMD_WRITE → m.nbdReq.dataBuf.read 0 r.len.toNat = r.payload

/-- **One request.** A stream that begins with an encoded request is read as that
request, up to its last byte. -/
theorem nbdRequestRead_encode (r : Request) (rest : List UInt8) (cuts : ℕ → ℕ) (mallocs : List ℕ)
    (garbage : ℕ → Memory) :
    ∃ m cuts', nbdRequestRead ⟨⟨r.encode ++ rest, cuts⟩, mallocs, garbage⟩ =
        .ok (m, ⟨⟨rest, cuts'⟩, (offsetofBuffer + r.len.toNat) :: mallocs, garbage⟩) ∧ Carries m r := by
  obtain ⟨cuts₁, hheader⟩ := Socket.readLoop_append r.header (r.payload ++ rest) cuts r.header_length
  rw [← List.append_assoc] at hheader
  have htype := ntohl_toBE r.type
  have hlen := ntohl_toBE r.len
  have hfrom := ntohll_toBE r.fromOffset
  simp only [nbdRequestRead, readAll, Request.encode, hheader, r.load_header, htype, hlen, hfrom, ne_eq,
    not_true_eq_false, if_false]
  by_cases hwrite : r.type = NBD_CMD_WRITE
  · have hplen : r.payload.length = r.len.toNat := by rw [r.payload_length, if_pos hwrite]
    obtain ⟨cuts₂, hpayload⟩ := Socket.readLoop_append r.payload rest cuts₁ hplen
    rw [if_pos hwrite, hpayload]
    refine ⟨_, cuts₂, rfl, rfl, rfl, rfl, rfl, fun _ => ?_⟩
    rw [← hplen]
    exact Memory.read_write_same _ 0 r.payload
  · have hempty : r.payload = [] := by
      have h := r.payload_length
      rw [if_neg hwrite] at h
      exact List.length_eq_zero_iff.mp h
    rw [if_neg hwrite, hempty]
    exact ⟨_, cuts₁, rfl, rfl, rfl, rfl, rfl, fun h => absurd h hwrite⟩

/-- `n` successive requests. -/
def readRequests : ℕ → Process → Except Abort (List NbdMessage × Process)
  | 0, p => .ok ([], p)
  | n + 1, p =>
    match nbdRequestRead p with
    | .error abort => .error abort
    | .ok (m, p) => (readRequests n p).map fun tail => (m :: tail.1, tail.2)

theorem readRequests_encode (requests : List Request) (rest : List UInt8) (cuts : ℕ → ℕ)
    (mallocs : List ℕ) (garbage : ℕ → Memory) :
    ∃ messages p, readRequests requests.length
        ⟨⟨requests.flatMap Request.encode ++ rest, cuts⟩, mallocs, garbage⟩ = .ok (messages, p) ∧
      List.Forall₂ Carries messages requests ∧ p.socket.bytes = rest := by
  induction requests generalizing cuts mallocs with
  | nil => exact ⟨[], _, rfl, .nil, rfl⟩
  | cons r requests ih =>
    obtain ⟨m, cuts', hread, hm⟩ := nbdRequestRead_encode r (requests.flatMap Request.encode ++ rest)
      cuts mallocs garbage
    obtain ⟨messages, p, hrest, hall, hp⟩ := ih cuts' ((offsetofBuffer + r.len.toNat) :: mallocs)
    rw [← List.append_assoc] at hread
    refine ⟨m :: messages, p, ?_, .cons hm hall, hp⟩
    simp only [List.length_cons, readRequests, List.flatMap_cons, hread, hrest]
    rfl

/-- A foreign magic stops the process with the header read and nothing else done. -/
theorem nbdRequestRead_magic (p : Process) (hlen : sizeofNbdRequest ≤ p.socket.bytes.length)
    (hmagic : p.socket.bytes.take 4 ≠ Bytes.toBE 4 NBD_REQUEST_MAGIC.toNat) :
    ∃ cuts, nbdRequestRead p = .error ⟨.requestMagic,
      {p with socket := ⟨p.socket.bytes.drop sizeofNbdRequest, cuts⟩}⟩ := by
  obtain ⟨cuts, hheader⟩ := Socket.readLoop_take sizeofNbdRequest sizeofNbdRequest p.socket
    (Nat.le_refl _) hlen
  have hfield : Bytes.field (p.socket.bytes.take sizeofNbdRequest) 0 4 = p.socket.bytes.take 4 := by
    simp [Bytes.field, List.take_take, sizeofNbdRequest]
  have hfour : (p.socket.bytes.take 4).length = 4 := by
    simp only [List.length_take, sizeofNbdRequest] at hlen ⊢
    omega
  have hraw : (RawRequest.load (p.socket.bytes.take sizeofNbdRequest)).magic ≠
      htonl NBD_REQUEST_MAGIC := by
    simp only [RawRequest.load, hfield]
    exact fun h => hmagic ((loadU32_eq_htonl NBD_REQUEST_MAGIC hfour).mp h)
  refine ⟨cuts, ?_⟩
  simp only [nbdRequestRead, readAll, hheader, if_pos hraw]

/-- **Request framing.** Of any requests on the socket, cut into reads in any way,
`k` calls return the first `k`, field for field and byte for byte, and leave the
stream at the next one; and any other magic stops at the assertion, with nothing
allocated and nothing behind the header consumed. -/
theorem reads_requests (requests : List Request) (rest : List UInt8) (cuts : ℕ → ℕ)
    (mallocs : List ℕ) (garbage : ℕ → Memory) :
    (∀ k ≤ requests.length, ∃ messages p,
      readRequests k ⟨⟨requests.flatMap Request.encode ++ rest, cuts⟩, mallocs, garbage⟩ =
          .ok (messages, p) ∧
        List.Forall₂ Carries messages (requests.take k) ∧
        p.socket.bytes = (requests.drop k).flatMap Request.encode ++ rest) ∧
    ∀ p : Process, sizeofNbdRequest ≤ p.socket.bytes.length →
      p.socket.bytes.take 4 ≠ Bytes.toBE 4 NBD_REQUEST_MAGIC.toNat →
      ∃ cuts, nbdRequestRead p = .error ⟨.requestMagic,
        {p with socket := ⟨p.socket.bytes.drop sizeofNbdRequest, cuts⟩}⟩ := by
  refine ⟨fun k hk => ?_, nbdRequestRead_magic⟩
  have h := readRequests_encode (requests.take k) ((requests.drop k).flatMap Request.encode ++ rest)
    cuts mallocs garbage
  have hsplit : (requests.take k).flatMap Request.encode ++
      ((requests.drop k).flatMap Request.encode ++ rest) = requests.flatMap Request.encode ++ rest := by
    rw [← List.append_assoc, ← List.flatMap_append, List.take_append_drop]
  rw [List.length_take, Nat.min_eq_left hk, hsplit] at h
  exact h

/-- A READ of a kilobyte. -/
def kilobyte : Request := ⟨NBD_CMD_READ, List.replicate 8 7, 4096, 1024, [], rfl, by decide⟩

/-- A WRITE of two bytes. -/
def twoBytes : Request := ⟨NBD_CMD_WRITE, List.replicate 8 9, 0, 2, [1, 2], rfl, rfl⟩

/-- Both and the next request's first byte, read byte by byte; the first of them alone; and
no request. -/
theorem reads_both :
    (∃ messages p, readRequests 2
        ⟨⟨[kilobyte, twoBytes].flatMap Request.encode ++ [0x25], fun _ => 1⟩, [], fun _ _ => 0⟩ =
          .ok (messages, p) ∧
      List.Forall₂ Carries messages [kilobyte, twoBytes] ∧ p.socket.bytes = [0x25]) ∧
    (∃ messages p, readRequests 1
        ⟨⟨[kilobyte, twoBytes].flatMap Request.encode ++ [0x25], fun _ => 1⟩, [], fun _ _ => 0⟩ =
          .ok (messages, p) ∧
      List.Forall₂ Carries messages [kilobyte] ∧ p.socket.bytes = twoBytes.encode ++ [0x25]) ∧
    ∃ cuts, nbdRequestRead ⟨⟨List.replicate 29 0, fun _ => 1⟩, [], fun _ _ => 0⟩ =
      .error ⟨.requestMagic, ⟨⟨[0], cuts⟩, [], fun _ _ => 0⟩⟩ := by
  have h := reads_requests [kilobyte, twoBytes] [0x25] (fun _ => 1) [] (fun _ _ => 0)
  refine ⟨h.1 2 (by decide), h.1 1 (by decide), ?_⟩
  exact h.2 ⟨⟨List.replicate 29 0, fun _ => 1⟩, [], fun _ _ => 0⟩ (by decide) (by decide)

end PrivateCloud.Nbd
