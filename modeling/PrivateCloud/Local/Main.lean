import PrivateCloud.Local.Device
import PrivateCloud.Nbd.ReplyFraming

/-! The local server from socket to socket: `main.cpp`.

The client puts its requests on the socket and takes the replies off it; in between
`Handle` is run once for each request, `read` and `write` cutting the streams as they
like. `serves_client` is the whole of it: the client parses one reply for each request, in
order, and a READ's data are, byte by byte, what the last WRITE before it put there. -/
namespace PrivateCloud.Local
open Nbd

/-- What stops the server. -/
inductive Fault where
  /-- An assertion in `NbdRequestRead`. -/
  | read (abort : Abort)
  /-- `memcpy` beyond the storage. -/
  | storage
  /-- The assertion in `write_all`. -/
  | write

/-- The request has something copied that does not lie in the storage. -/
def Outside (req : NbdRequest) : Prop :=
  (req.reqType = NBD_CMD_READ ∨ req.reqType = NBD_CMD_WRITE) ∧
    storageSize < req.offset.toNat + req.dataLen.toNat

instance (req : NbdRequest) : Decidable (Outside req) := inferInstanceAs (Decidable (_ ∧ _))

/-- `Handle`, `writes` being how `write` splits the reply. -/
def handleNext (storage : Memory) (p : Process) (writes : ℕ → ℕ) :
    Except Fault (List UInt8 × Process × Memory) :=
  match nbdRequestRead p with
  | .error abort => .error (.read abort)
  | .ok (message, p) =>
    if Outside message.nbdReq then .error .storage
    else
      match nbdRequestDonePuts (filled message storage) 0 writes with
      | none => .error .write
      | some bytes => .ok (bytes, p, stored message.nbdReq storage)

/-- `Handle` as often as `Run` finds a request: what is put on the socket. -/
def serve : ℕ → Memory → Process → (ℕ → ℕ → ℕ) → Except Fault (List UInt8 × Process × Memory)
  | 0, storage, p, _ => .ok ([], p, storage)
  | n + 1, storage, p, writes =>
    match handleNext storage p (writes 0) with
    | .error fault => .error fault
    | .ok (bytes, p, storage) =>
      (serve n storage p fun i => writes (i + 1)).map fun tail => (bytes ++ tail.1, tail.2)

/-! ### The client's side -/

/-- What a client's request puts at an address. -/
def requestPuts (r : Request) (a : ℕ) : Option UInt8 :=
  if r.type = NBD_CMD_WRITE ∧ r.fromOffset.toNat ≤ a ∧ a < r.fromOffset.toNat + r.len.toNat then
    some (r.payload.getD (a - r.fromOffset.toNat) 0)
  else none

/-- What a client reads back after its earlier requests. -/
def replyTo (storage : Memory) (before : List Request) (r : Request) : ClientReply where
  error := 0
  handle := r.handle
  data :=
    if r.type = NBD_CMD_READ then
      (List.range r.len.toNat).map fun i => lastPut storage requestPuts before (r.fromOffset.toNat + i)
    else []

def repliesTo (storage : Memory) (before : List Request) : List Request → List ClientReply
  | [] => []
  | r :: rest => replyTo storage before r :: repliesTo storage (before ++ [r]) rest

/-- The request is for nothing that the storage does not have. -/
def Inside (r : Request) : Prop :=
  r.type = NBD_CMD_READ ∨ r.type = NBD_CMD_WRITE → r.fromOffset.toNat + r.len.toNat ≤ storageSize

instance (r : Request) : Decidable (Inside r) := inferInstanceAs (Decidable (_ → _))

theorem puts_carries {m : NbdMessage} {r : Request} (h : Carries m r) : puts m = requestPuts r := by
  funext a
  simp only [puts, requestPuts, h.reqType, h.offset, h.dataLen]
  split
  case isTrue hin =>
    obtain ⟨hwrite, hlo, hhi⟩ := hin
    rw [← h.payload hwrite, Memory.read_getD _ _ _ (by omega), Nat.zero_add]
  case isFalse => rfl

/-- What a request is completed with. -/
theorem reply_filled (storage : Memory) {m : NbdMessage} {r : Request} (h : Carries m r)
    (before : List Request) (writes : ℕ → ℕ) :
    (⟨filled m (lastPut storage requestPuts before), 0, writes⟩ : Completion).reply =
      replyTo storage before r := by
  simp only [Completion.reply, replyTo, filled_reply, filled_reqType, filled_dataLen, h.reqType, h.handle,
    and_true, ClientReply.mk.injEq, true_and]
  by_cases hread : r.type = NBD_CMD_READ
  · have hdata := filled_read m (lastPut storage requestPuts before) (h.reqType.trans hread)
    rw [h.dataLen, h.offset] at hdata
    rw [if_pos hread, if_pos hread, h.dataLen, hdata]
    rfl
  · rw [if_neg hread, if_neg hread]

/-- **One request**, served out of the storage that the earlier ones left. -/
theorem handleNext_encode (storage : Memory) (before : List Request) {r : Request} (hinside : Inside r)
    (rest : List UInt8) (cuts : ℕ → ℕ) (mallocs : List ℕ) (garbage : ℕ → Memory) (writes : ℕ → ℕ) :
    ∃ m cuts', handleNext (lastPut storage requestPuts before)
          ⟨⟨r.encode ++ rest, cuts⟩, mallocs, garbage⟩ writes =
        .ok (nbdRequestDone m 0, ⟨⟨rest, cuts'⟩, (offsetofBuffer + r.len.toNat) :: mallocs, garbage⟩,
          lastPut storage requestPuts (before ++ [r])) ∧
      Accepted m ∧ m.reply.handle = r.handle ∧ m.nbdReq.reqType = r.type ∧ m.nbdReq.dataLen = r.len ∧
      (⟨m, 0, writes⟩ : Completion).reply = replyTo storage before r := by
  obtain ⟨m, cuts', hread, hm⟩ := nbdRequestRead_encode r rest cuts mallocs garbage
  have haccepted : Accepted (filled m (lastPut storage requestPuts before)) :=
    ⟨_, m, _, hread, filled_reply .., filled_reqType .., filled_dataLen ..⟩
  have hout : ¬Outside m.nbdReq := by
    intro hcase
    obtain ⟨htype, hlt⟩ := hcase
    rw [hm.reqType] at htype
    rw [hm.offset, hm.dataLen] at hlt
    exact absurd (hinside htype) (Nat.not_le.mpr hlt)
  have hstorage : stored m.nbdReq (lastPut storage requestPuts before) =
      lastPut storage requestPuts (before ++ [r]) := by
    funext a
    rw [lastPut_snoc, ← puts_carries hm]
    exact handle_puts m _ a
  refine ⟨filled m (lastPut storage requestPuts before), cuts', ?_, haccepted, ?_, ?_, ?_,
    reply_filled storage hm ..⟩
  · simp only [handleNext, hread, if_neg hout, nbdRequestDonePuts_eq haccepted, hstorage]
  · rw [filled_reply, hm.handle]
  · rw [filled_reqType, hm.reqType]
  · rw [filled_dataLen, hm.dataLen]

/-- The client waits for its request when the reply to it comes. -/
def Awaits (sent : ℕ → List UInt8 → Option Outstanding) (requests : List Request) : Prop :=
  ∀ k r, requests[k]? = some r → sent k r.handle = some ⟨r.type, r.len⟩

/-- The requests are served and completed one after the other. -/
theorem serve_encode (storage : Memory) (before requests : List Request) (hinside : ∀ r ∈ requests, Inside r)
    (rest : List UInt8) (cuts : ℕ → ℕ) (mallocs : List ℕ) (garbage : ℕ → Memory)
    (writes : ℕ → ℕ → ℕ) {sent : ℕ → List UInt8 → Option Outstanding} (hsent : Awaits sent requests) :
    ∃ (completions : List Completion) (p : Process),
      serve requests.length (lastPut storage requestPuts before)
          ⟨⟨requests.flatMap Request.encode ++ rest, cuts⟩, mallocs, garbage⟩ writes =
        .ok (completions.flatMap fun c => nbdRequestDone c.message c.error, p,
          lastPut storage requestPuts (before ++ requests)) ∧
      p.socket.bytes = rest ∧ (∀ c ∈ completions, Accepted c.message ∧ c.error = 0) ∧
      Completion.Waiting sent completions ∧
      completions.map Completion.reply = repliesTo storage before requests := by
  induction requests generalizing before cuts mallocs writes sent with
  | nil => exact ⟨[], _, by rw [List.append_nil]; rfl, rfl, nofun, nofun, rfl⟩
  | cons r requests ih =>
    obtain ⟨hfirst, hlater⟩ := List.forall_mem_cons.mp hinside
    obtain ⟨m, cuts', hnext, haccepted, hhandle, htype, hlen, hreply⟩ := handleNext_encode storage before hfirst
      (requests.flatMap Request.encode ++ rest) cuts mallocs garbage (writes 0)
    obtain ⟨completions, p, hserve, hp, hall, hwaiting, hreplies⟩ := ih (before ++ [r]) hlater cuts'
      ((offsetofBuffer + r.len.toNat) :: mallocs) (fun i => writes (i + 1))
      (fun k r' hk => hsent (k + 1) r' hk)
    refine ⟨⟨m, 0, writes 0⟩ :: completions, p, ?_, hp, ?_, ?_, ?_⟩
    · rw [List.length_cons, serve, List.flatMap_cons, List.append_assoc, hnext]
      simp only [hserve, List.append_assoc, List.singleton_append, List.flatMap_cons]
      rfl
    · exact List.forall_mem_cons.mpr ⟨⟨haccepted, rfl⟩, hall⟩
    · intro k c hk
      cases k with
      | zero =>
        obtain rfl := Option.some.inj hk
        rw [hhandle, htype, hlen]
        exact hsent 0 r rfl
      | succ k => exact hwaiting k c hk
    · rw [List.map_cons, hreply, hreplies]
      rfl

/-- **The local server is a disk to its client.** Whatever requests inside the storage it
puts on the socket, whatever the storage was, and however the streams are cut, the client
parses one reply to each of them, in order and without an error, with the data of a READ as
they were last written; the server has taken the requests off the socket and nothing behind
them. -/
theorem serves_client (storage : Memory) (requests : List Request) (hinside : ∀ r ∈ requests, Inside r)
    (rest : List UInt8) (cuts : ℕ → ℕ) (mallocs : List ℕ) (garbage : ℕ → Memory) (writes : ℕ → ℕ → ℕ)
    (sent : ℕ → List UInt8 → Option Outstanding) (hsent : Awaits sent requests) :
    ∃ bytes p, serve requests.length storage
          ⟨⟨requests.flatMap Request.encode ++ rest, cuts⟩, mallocs, garbage⟩ writes =
        .ok (bytes, p, lastPut storage requestPuts requests) ∧
      p.socket.bytes = rest ∧
        clientReplies sent bytes.length 0 bytes = some (repliesTo storage [] requests) := by
  obtain ⟨completions, p, hserve, hp, hall, hwaiting, hreplies⟩ :=
    serve_encode storage [] requests hinside rest cuts mallocs garbage writes hsent
  refine ⟨_, p, hserve, hp, ?_⟩
  rw [← hreplies]
  refine Completion.clientReplies_done _ 0 (fun c hc => (hall c hc).1) (fun c hc hs => ?_) ?_
    (Nat.le_refl _)
  · exact hs.2.1 (hall c hc).2
  · intro k c hk
    have hwait := hwaiting k c hk
    rwa [← Nat.zero_add k] at hwait

/-- A WRITE of two bytes and a READ of them and the one before. -/
def writeThenRead : List Request :=
  [⟨NBD_CMD_WRITE, List.replicate 8 1, 5, 2, [7, 8], rfl, rfl⟩,
    ⟨NBD_CMD_READ, List.replicate 8 2, 4, 3, [], rfl, rfl⟩]

theorem serves_client_read : ∃ bytes p, serve writeThenRead.length (fun _ => 3)
      ⟨⟨writeThenRead.flatMap Request.encode ++ [0x25], fun _ => 1⟩, [], fun _ _ => 0⟩ (fun _ _ => 3) =
    .ok (bytes, p, lastPut (fun _ => 3) requestPuts writeThenRead) ∧ p.socket.bytes = [0x25] ∧
    clientReplies (fun k _ => (writeThenRead[k]?).map fun r => ⟨r.type, r.len⟩) bytes.length 0 bytes =
      some [⟨0, List.replicate 8 1, []⟩, ⟨0, List.replicate 8 2, [3, 7, 8]⟩] := by
  have hreplies : repliesTo (fun _ => 3) [] writeThenRead =
      [⟨0, List.replicate 8 1, []⟩, ⟨0, List.replicate 8 2, [3, 7, 8]⟩] := by decide
  rw [← hreplies]
  exact serves_client _ writeThenRead (by decide) [0x25] (fun _ => 1) [] (fun _ _ => 0) (fun _ _ => 3) _
    fun k r hk => by rw [hk]; rfl

end PrivateCloud.Local
