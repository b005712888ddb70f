import PrivateCloud.Nbd.Framing

/-! Reply framing.

`NbdRequestDone` hands one block of memory to `write_all`: the reply and, `buffer`
being the next member of `nbd_message_t`, the data of a READ. `writeAll_eq` is that
loop, for every way `write` splits the block.

The client takes a reply of sixteen bytes off the stream, finds the request under its
handle, and takes that request's data if it was a READ and the reply reports no error.
`replies_parsed_iff` is when the client reads what the server wrote: the data of a READ
follow its reply whatever the error is, and a client does not expect them behind an
error. -/
namespace PrivateCloud.Nbd

/-! ### Writing a message -/

def offsetofReply : ℕ := 28
def sizeofNbdReply : ℕ := 16

/-- `struct nbd_reply` in memory; it is packed. -/
def NbdReply.store (reply : NbdReply) : List UInt8 :=
  Bytes.toLE 4 reply.magic.toNat ++ Bytes.toLE 4 reply.error.toNat ++ reply.handle

/-- The block of a message: the reply, and from `offsetof(nbd_message_t, buffer)` on the
buffer. What lies in front of the reply is not looked at. -/
def NbdMessage.block (m : NbdMessage) : Memory :=
  Memory.write (fun a => m.nbdReq.dataBuf (a - offsetofBuffer)) offsetofReply m.reply.store

/-- `write_all`, with what the calls of `write` like to take; a result that is not a
positive `int` stops it. Every call makes progress, so `count` calls suffice. -/
def writeAll (block : Memory) : (fuel count buf : ℕ) → (cuts : ℕ → ℕ) → Option (List UInt8)
  | _, 0, _, _ => some []
  | 0, _ + 1, _, _ => none
  | fuel + 1, count + 1, buf, cuts =>
    let taken := min (max 1 (cuts 0)) (min (count + 1) Socket.maxTransfer)
    let bytesWritten := Int32.ofNat taken
    if 0 < bytesWritten then
      (writeAll block fuel (count + 1 - bytesWritten.toNatClampNeg) (buf + bytesWritten.toNatClampNeg)
        fun i => cuts (i + 1)).map fun rest => block.read buf taken ++ rest
    else none

/-- `NbdRequestDone`: what it puts on the NBD socket, call by call of `write`. -/
def nbdRequestDonePuts (message : NbdMessage) (error : UInt32) (cuts : ℕ → ℕ) : Option (List UInt8) :=
  let message := {message with reply := {message.reply with error := htonl error}}
  let len := sizeofNbdReply +
    if message.nbdReq.reqType = NBD_CMD_READ then message.nbdReq.dataLen.toNat else 0
  writeAll message.block len len offsetofReply cuts

/-- **Every split writes the same.** -/
theorem writeAll_eq (block : Memory) (fuel count buf : ℕ) (cuts : ℕ → ℕ) (hfuel : count ≤ fuel) :
    writeAll block fuel count buf cuts = some (block.read buf count) := by
  induction fuel generalizing count buf cuts with
  | zero =>
    obtain rfl := Nat.le_zero.mp hfuel
    rfl
  | succ fuel ih =>
    cases count with
    | zero => rfl
    | succ count =>
      have hbounds : 0 < min (max 1 (cuts 0)) (min (count + 1) Socket.maxTransfer) ∧
          min (max 1 (cuts 0)) (min (count + 1) Socket.maxTransfer) ≤ count + 1 ∧
            min (max 1 (cuts 0)) (min (count + 1) Socket.maxTransfer) ≤ Socket.maxTransfer := by
        simp only [Socket.maxTransfer]
        omega
      obtain ⟨hpos, hle, hmax⟩ := hbounds
      obtain ⟨hint, hnat⟩ := Socket.int_ready hpos hmax
      simp only [writeAll, if_pos hint, hnat]
      rw [ih _ _ _ (by omega), Option.map_some, Memory.read_append, Nat.add_sub_cancel' hle]

/-- A message that `NbdRequestRead` has returned and somebody has filled the buffer of. -/
def Accepted (m : NbdMessage) : Prop :=
  ∃ p m' p', nbdRequestRead p = .ok (m', p') ∧ m.reply = m'.reply ∧
    m.nbdReq.reqType = m'.nbdReq.reqType ∧ m.nbdReq.dataLen = m'.nbdReq.dataLen

theorem Accepted.reply {m : NbdMessage} (h : Accepted m) :
    m.reply.magic = htonl NBD_REPLY_MAGIC ∧ m.reply.handle.length = 8 := by
  obtain ⟨p, m', p', hread, hreply, -, -⟩ := h
  rw [hreply]
  simp only [nbdRequestRead] at hread
  split at hread
  case h_1 => cases hread
  case h_2 bytes socket hbytes =>
    have hhandle : (RawRequest.load bytes).handle.length = 8 := by
      have hlen := Socket.readLoop_length (Nat.le_refl _) hbytes
      simp only [RawRequest.load, Bytes.field, List.length_take, List.length_drop, hlen]
      rfl
    split at hread
    case isTrue => cases hread
    case isFalse =>
      split at hread
      case isTrue =>
        split at hread
        case h_1 => cases hread
        case h_2 =>
          obtain ⟨rfl, -⟩ := Prod.mk.inj (Except.ok.inj hread)
          exact ⟨rfl, hhandle⟩
      case isFalse =>
        obtain ⟨rfl, -⟩ := Prod.mk.inj (Except.ok.inj hread)
        exact ⟨rfl, hhandle⟩

/-- The reply and the buffer lie next to each other, so a READ's data follow its reply. -/
theorem nbdRequestDonePuts_eq {m : NbdMessage} (h : Accepted m) (error : UInt32) (cuts : ℕ → ℕ) :
    nbdRequestDonePuts m error cuts = some (nbdRequestDone m error) := by
  have hstore : ({m.reply with error := htonl error} : NbdReply).store.length = sizeofNbdReply := by
    simp only [NbdReply.store, List.length_append, Bytes.toLE_length, h.reply.2]
    rfl
  have hfront : ({m with reply := {m.reply with error := htonl error}} : NbdMessage).block.read
      offsetofReply sizeofNbdReply = ({m.reply with error := htonl error} : NbdReply).store := by
    rw [← hstore]
    exact Memory.read_write_same _ _ _
  have hbuffer (n : ℕ) : ({m with reply := {m.reply with error := htonl error}} : NbdMessage).block.read
      (offsetofReply + sizeofNbdReply) n = m.nbdReq.dataBuf.read 0 n := by
    refine Memory.read_congr fun i _ => ?_
    have hbehind : ({m with reply := {m.reply with error := htonl error}} : NbdMessage).block
        (offsetofReply + sizeofNbdReply + i) =
      m.nbdReq.dataBuf (offsetofReply + sizeofNbdReply + i - offsetofBuffer) :=
      Memory.write_outside _ (Or.inr (by rw [hstore]; omega))
    rw [hbehind]
    congr 1
    simp only [offsetofReply, sizeofNbdReply, offsetofBuffer]
    omega
  simp only [nbdRequestDonePuts]
  rw [writeAll_eq _ _ _ _ _ (Nat.le_refl _), ← Memory.read_append, hfront, hbuffer]
  simp only [nbdRequestDone, NbdReply.store]
  split
  case isTrue => rfl
  case isFalse => rfl

/-! ### The client -/

/-- What the client remembers of a request it has sent. -/
structure Outstanding where
  type : UInt32
  len : UInt32

/-- How much data it takes behind a reply with this error. -/
def Outstanding.expects (request : Outstanding) (error : UInt32) : ℕ :=
  if request.type = NBD_CMD_READ ∧ error = 0 then request.len.toNat else 0

/-- What it reads. -/
structure ClientReply where
  error : UInt32
  handle : List UInt8
  data : List UInt8
  deriving DecidableEq

/-- One reply off the stream: header, request, data. -/
def clientReply (sent : List UInt8 → Option Outstanding) (bytes : List UInt8) :
    Option (ClientReply × List UInt8) :=
  if bytes.length < sizeofNbdReply ∨ ntohl (loadU32 (Bytes.field bytes 0 4)) ≠ NBD_REPLY_MAGIC then none
  else
    let error := ntohl (loadU32 (Bytes.field bytes 4 4))
    let handle := Bytes.field bytes 8 8
    match sent handle with
    | none => none
    | some request =>
      let count := request.expects error
      if bytes.length < sizeofNbdReply + count then none
      else some (⟨error, handle, (bytes.drop sizeofNbdReply).take count⟩,
        bytes.drop (sizeofNbdReply + count))

/-- All the replies of a stream. A client's requests change as it goes on: `sent k` are
those that it waits for at its `k`-th reply. Each reply has a header, so as many turns
as there are bytes suffice. -/
def clientReplies (sent : ℕ → List UInt8 → Option Outstanding) :
    (fuel k : ℕ) → List UInt8 → Option (List ClientReply)
  | _, _, [] => some []
  | 0, _, _ :: _ => none
  | fuel + 1, k, byte :: bytes =>
    match clientReply (sent k) (byte :: bytes) with
    | none => none
    | some (reply, rest) => (clientReplies sent fuel (k + 1) rest).map fun tail => reply :: tail

/-! ### What it makes of the server's replies -/

/-- A call of `NbdRequestDone`, and how its writes are split. -/
structure Completion where
  message : NbdMessage
  error : UInt32
  cuts : ℕ → ℕ

namespace Completion

/-- The reply that the client is to read. -/
def reply (c : Completion) : ClientReply where
  error := c.error
  handle := c.message.reply.handle
  data :=
    if c.message.nbdReq.reqType = NBD_CMD_READ ∧ c.error = 0 then
      c.message.nbdReq.dataBuf.read 0 c.message.nbdReq.dataLen.toNat
    else []

/-- A READ that failed and that has data all the same. -/
def Surplus (c : Completion) : Prop :=
  c.message.nbdReq.reqType = NBD_CMD_READ ∧ c.error ≠ 0 ∧ c.message.nbdReq.dataLen ≠ 0

instance (c : Completion) : Decidable c.Surplus := inferInstanceAs (Decidable (_ ∧ _ ∧ _))

/-- The stream after these calls, one after the other. -/
def written : List Completion → Option (List UInt8)
  | [] => some []
  | c :: rest =>
    match nbdRequestDonePuts c.message c.error c.cuts with
    | none => none
    | some bytes => (written rest).map fun tail => bytes ++ tail

/-- The client waits for the requests that are completed, when they are. -/
def Waiting (sent : ℕ → List UInt8 → Option Outstanding) (completions : List Completion) : Prop :=
  ∀ k c, completions[k]? = some c →
    sent k c.message.reply.handle = some ⟨c.message.nbdReq.reqType, c.message.nbdReq.dataLen⟩

/-- The client reads one reply for each completion, in order, and nothing else. -/
def Parsed (sent : ℕ → List UInt8 → Option Outstanding) (completions : List Completion) : Prop :=
  ∃ bytes, written completions = some bytes ∧
    clientReplies sent bytes.length 0 bytes = some (completions.map reply)

theorem written_eq {completions : List Completion} (h : ∀ c ∈ completions, Accepted c.message) :
    written completions = some (completions.flatMap fun c => nbdRequestDone c.message c.error) := by
  induction completions with
  | nil => rfl
  | cons c completions ih =>
    obtain ⟨hfirst, hrest⟩ := List.forall_mem_cons.mp h
    rw [written, nbdRequestDonePuts_eq hfirst, ih hrest]
    rfl

end Completion

/-- A reply takes what it holds off the stream. -/
theorem clientReply_length {sent : List UInt8 → Option Outstanding} {bytes rest : List UInt8}
    {reply : ClientReply}
    (h : clientReply sent bytes = some (reply, rest)) :
    bytes.length = sizeofNbdReply + reply.data.length + rest.length := by
  simp only [clientReply] at h
  split at h
  case isTrue => cases h
  case isFalse =>
    split at h
    case h_1 => cases h
    case h_2 request hsent =>
      split at h
      case isTrue => cases h
      case isFalse hlen =>
        obtain ⟨rfl, rfl⟩ := Prod.mk.inj (Option.some.inj h)
        simp only [List.length_take, List.length_drop]
        omega

theorem clientReplies_length {sent : ℕ → List UInt8 → Option Outstanding} {fuel k : ℕ} {bytes : List UInt8}
    {replies : List ClientReply} (h : clientReplies sent fuel k bytes = some replies) :
    bytes.length = (replies.map fun reply => sizeofNbdReply + reply.data.length).sum := by
  induction fuel generalizing k bytes replies with
  | zero =>
    cases bytes with
    | nil =>
      obtain rfl := Option.some.inj h
      rfl
    | cons byte bytes => cases h
  | succ fuel ih =>
    cases bytes with
    | nil =>
      obtain rfl := Option.some.inj h
      rfl
    | cons byte bytes =>
      simp only [clientReplies] at h
      split at h
      case h_1 => cases h
      case h_2 reply rest hreply =>
        obtain ⟨tail, htail, rfl⟩ := Option.map_eq_some_iff.mp h
        rw [clientReply_length hreply, ih htail, List.map_cons, List.sum_cons]

namespace Completion

theorem done_length {c : Completion} (h : Accepted c.message) :
    (nbdRequestDone c.message c.error).length = sizeofNbdReply +
      if c.message.nbdReq.reqType = NBD_CMD_READ then c.message.nbdReq.dataLen.toNat else 0 := by
  simp only [nbdRequestDone, List.length_append, Bytes.toLE_length, h.reply.2]
  split
  case isTrue => rw [Memory.read_length]; rfl
  case isFalse => rfl

/-- The server never writes less than the client reads. -/
theorem reply_length_le {c : Completion} (h : Accepted c.message) :
    sizeofNbdReply + c.reply.data.length ≤ (nbdRequestDone c.message c.error).length ∧
      (c.Surplus → sizeofNbdReply + c.reply.data.length < (nbdRequestDone c.message c.error).length) := by
  rw [done_length h]
  by_cases hread : c.message.nbdReq.reqType = NBD_CMD_READ
  · by_cases herror : c.error = 0
    · rw [if_pos hread, reply, if_pos ⟨hread, herror⟩, Memory.read_length]
      exact ⟨Nat.le_refl _, fun hs => absurd herror hs.2.1⟩
    · rw [if_pos hread, reply, if_neg (fun hboth => herror hboth.2), List.length_nil]
      refine ⟨by omega, fun hs => ?_⟩
      have hpos : c.message.nbdReq.dataLen.toNat ≠ 0 := fun h0 => hs.2.2 (UInt32.toNat_inj.mp h0)
      omega
  · rw [if_neg hread, reply, if_neg (fun hboth => hread hboth.1), List.length_nil]
    exact ⟨Nat.le_refl _, fun hs => absurd hs.1 hread⟩

theorem replies_length_le {completions : List Completion} (h : ∀ c ∈ completions, Accepted c.message) :
    ((completions.map reply).map fun reply => sizeofNbdReply + reply.data.length).sum ≤
      (completions.flatMap fun c => nbdRequestDone c.message c.error).length := by
  induction completions with
  | nil => exact Nat.zero_le _
  | cons c completions ih =>
    obtain ⟨hfirst, hrest⟩ := List.forall_mem_cons.mp h
    have hle := (reply_length_le hfirst).1
    have htail := ih hrest
    rw [List.map_cons, List.map_cons, List.sum_cons, List.flatMap_cons, List.length_append]
    omega

/-- So with a surplus anywhere the stream is too long. -/
theorem surplus_longer {completions : List Completion} (h : ∀ c ∈ completions, Accepted c.message)
    (hlen : (completions.flatMap fun c => nbdRequestDone c.message c.error).length ≤
      ((completions.map reply).map fun reply => sizeofNbdReply + reply.data.length).sum) :
    ∀ c ∈ completions, ¬c.Surplus := by
  induction completions with
  | nil => nofun
  | cons c completions ih =>
    obtain ⟨hfirst, hrest⟩ := List.forall_mem_cons.mp h
    have hle := (reply_length_le hfirst).1
    have htail := replies_length_le hrest
    rw [List.map_cons, List.map_cons, List.sum_cons, List.flatMap_cons, List.length_append] at hlen
    refine List.forall_mem_cons.mpr ⟨fun hs => ?_, ih hrest (by omega)⟩
    have hlt := (reply_length_le hfirst).2 hs
    omega

/-- Without surplus the data that follow are those the client expects. -/
theorem reply_data {c : Completion} (hs : ¬c.Surplus) :
    (if c.message.nbdReq.reqType = NBD_CMD_READ then
      c.message.nbdReq.dataBuf.read 0 c.message.nbdReq.dataLen.toNat else []) = c.reply.data ∧
    Outstanding.expects ⟨c.message.nbdReq.reqType, c.message.nbdReq.dataLen⟩ c.error =
      c.reply.data.length := by
  by_cases hread : c.message.nbdReq.reqType = NBD_CMD_READ
  · by_cases herror : c.error = 0
    · rw [if_pos hread, Outstanding.expects, reply, if_pos ⟨hread, herror⟩, if_pos ⟨hread, herror⟩,
        Memory.read_length]
      exact ⟨rfl, rfl⟩
    · have hempty : c.message.nbdReq.dataLen = 0 := by
        by_contra hlen
        exact hs ⟨hread, herror, hlen⟩
      rw [if_pos hread, Outstanding.expects, reply, if_neg (fun hboth => herror hboth.2),
        if_neg (fun hboth => herror hboth.2), hempty]
      exact ⟨rfl, rfl⟩
  · rw [if_neg hread, Outstanding.expects, reply, if_neg (fun hboth => hread hboth.1),
      if_neg (fun hboth => hread hboth.1)]
    exact ⟨rfl, rfl⟩

/-- A reply without surplus, read off the front of a stream. -/
theorem clientReply_done (sent : List UInt8 → Option Outstanding) {c : Completion}
    (h : Accepted c.message)
    (hwaiting : sent c.message.reply.handle = some ⟨c.message.nbdReq.reqType, c.message.nbdReq.dataLen⟩)
    (hs : ¬c.Surplus) (rest : List UInt8) :
    clientReply sent (nbdRequestDone c.message c.error ++ rest) = some (c.reply, rest) := by
  obtain ⟨hdata, hexpects⟩ := reply_data hs
  obtain ⟨hmagic, hhandle⟩ := h.reply
  have h4 (n : ℕ) : (Bytes.toLE 4 n).length = 4 := Bytes.toLE_length 4 n
  have hbytes : nbdRequestDone c.message c.error ++ rest = Bytes.toLE 4 (htonl NBD_REPLY_MAGIC).toNat ++
      (Bytes.toLE 4 (htonl c.error).toNat ++ (c.message.reply.handle ++ (c.reply.data ++ rest))) := by
    simp only [nbdRequestDone, hdata, hmagic, List.append_assoc]
  have hlength : (nbdRequestDone c.message c.error ++ rest).length =
      sizeofNbdReply + (c.reply.data.length + rest.length) := by
    simp only [hbytes, List.length_append, h4, hhandle, sizeofNbdReply]
    omega
  have hword (x : UInt32) : ntohl (loadU32 (Bytes.toLE 4 (htonl x).toNat)) = x := by
    rw [loadU32_toLE]
    exact ntohl_toBE x
  have hfirst : ntohl (loadU32 (Bytes.field (nbdRequestDone c.message c.error ++ rest) 0 4)) =
      NBD_REPLY_MAGIC := by
    rw [hbytes, Bytes.field_here (h4 _), hword]
  have herror : ntohl (loadU32 (Bytes.field (nbdRequestDone c.message c.error ++ rest) 4 4)) = c.error := by
    rw [hbytes, Bytes.field_skip (by rw [h4]), h4, Bytes.field_here (h4 _), hword]
  have hname : Bytes.field (nbdRequestDone c.message c.error ++ rest) 8 8 = c.message.reply.handle := by
    rw [hbytes, Bytes.field_skip (by rw [h4]; decide), h4, Bytes.field_skip (by rw [h4]), h4,
      Bytes.field_here hhandle]
  have hbehind : (nbdRequestDone c.message c.error ++ rest).drop sizeofNbdReply = c.reply.data ++ rest := by
    rw [hbytes, ← List.append_assoc, ← List.append_assoc]
    exact List.drop_left' (by simp only [List.length_append, h4, hhandle]; rfl)
  have hlong : ¬((nbdRequestDone c.message c.error ++ rest).length < sizeofNbdReply ∨
      NBD_REPLY_MAGIC ≠ NBD_REPLY_MAGIC) := by
    rw [hlength]
    simp
  have henough : ¬(nbdRequestDone c.message c.error ++ rest).length <
      sizeofNbdReply + c.reply.data.length := by
    rw [hlength]
    omega
  simp only [clientReply, hfirst, herror, hname, hwaiting, hexpects]
  rw [if_neg hlong, if_neg henough, ← List.drop_drop, hbehind, List.take_left, List.drop_left]
  rfl

theorem clientReplies_done {sent : ℕ → List UInt8 → Option Outstanding}
    {completions : List Completion} (fuel k : ℕ)
    (h : ∀ c ∈ completions, Accepted c.message) (hs : ∀ c ∈ completions, ¬c.Surplus)
    (hwaiting : Waiting (fun j => sent (k + j)) completions)
    (hfuel : (completions.flatMap fun c => nbdRequestDone c.message c.error).length ≤ fuel) :
    clientReplies sent fuel k (completions.flatMap fun c => nbdRequestDone c.message c.error) =
      some (completions.map reply) := by
  induction completions generalizing fuel k with
  | nil => cases fuel <;> rfl
  | cons c completions ih =>
    obtain ⟨hfirst, hrest⟩ := List.forall_mem_cons.mp h
    obtain ⟨hsfirst, hsrest⟩ := List.forall_mem_cons.mp hs
    have hreply := clientReply_done (sent k) hfirst (hwaiting 0 c rfl) hsfirst
      (completions.flatMap fun c => nbdRequestDone c.message c.error)
    have hlong := done_length hfirst
    rw [List.flatMap_cons, List.length_append, hlong, sizeofNbdReply] at hfuel
    obtain ⟨fuel, rfl⟩ : ∃ f, fuel = f + 1 := ⟨fuel - 1, by omega⟩
    have hlater : Waiting (fun j => sent (k + 1 + j)) completions := by
      intro j c' hj
      show sent (k + 1 + j) _ = _
      rw [Nat.add_assoc, Nat.add_comm 1 j]
      exact hwaiting (j + 1) c' hj
    have htail := ih fuel (k + 1) hrest hsrest hlater (by omega)
    rw [List.flatMap_cons]
    obtain ⟨byte, bytes, hcons⟩ : ∃ byte bytes, nbdRequestDone c.message c.error ++
        completions.flatMap (fun c => nbdRequestDone c.message c.error) = byte :: bytes := by
      refine List.exists_cons_of_ne_nil fun hnil => ?_
      have hzero := congrArg List.length hnil
      rw [List.length_append, hlong, sizeofNbdReply, List.length_nil] at hzero
      omega
    rw [hcons] at hreply ⊢
    simp only [clientReplies, hreply, htail]
    rfl

/-- **Reply framing.** The client reads what the server wrote exactly if no READ that
failed has data. -/
theorem replies_parsed_iff (completions : List Completion) (h : ∀ c ∈ completions, Accepted c.message)
    (sent : ℕ → List UInt8 → Option Outstanding) (hwaiting : Waiting sent completions) :
    Parsed sent completions ↔ ∀ c ∈ completions, ¬c.Surplus := by
  have hwritten := written_eq h
  constructor
  · rintro ⟨bytes, hbytes, hparsed⟩
    rw [hwritten, Option.some.injEq] at hbytes
    refine surplus_longer h ?_
    rw [hbytes, clientReplies_length hparsed]
  · intro hs
    refine ⟨_, hwritten, ?_⟩
    refine clientReplies_done _ 0 h hs ?_ (Nat.le_refl _)
    intro k c hk
    have hsent := hwaiting k c hk
    rwa [← Nat.zero_add k] at hsent

theorem accepted_encode (r : Request) : ∃ m, Accepted m ∧ Carries m r := by
  obtain ⟨m, cuts, hread, hcarries⟩ := nbdRequestRead_encode r [] (fun _ => 1) [] (fun _ _ => 0)
  exact ⟨m, ⟨_, m, _, hread, rfl, rfl, rfl⟩, hcarries⟩

/-- A client that waits for both. -/
def waitsForBoth (_ : ℕ) (handle : List UInt8) : Option Outstanding :=
  if handle = kilobyte.handle then some ⟨NBD_CMD_READ, 1024⟩
  else if handle = twoBytes.handle then some ⟨NBD_CMD_WRITE, 2⟩ else none

/-- The WRITE fails, and the READ is answered after it. -/
theorem parsed_both : ∃ m m', Accepted m ∧ Carries m kilobyte ∧ Accepted m' ∧ Carries m' twoBytes ∧
    Parsed waitsForBoth [⟨m', 5, fun _ => 3⟩, ⟨m, 0, fun _ => 100⟩] := by
  obtain ⟨m, hm, hread⟩ := accepted_encode kilobyte
  obtain ⟨m', hm', hwrite⟩ := accepted_encode twoBytes
  refine ⟨m, m', hm, hread, hm', hwrite,
    (replies_parsed_iff [⟨m', 5, fun _ => 3⟩, ⟨m, 0, fun _ => 100⟩] ?_ _ ?_).mpr ?_⟩
  · simp only [List.forall_mem_cons]
    exact ⟨hm', hm, nofun⟩
  · intro k c hk
    rcases List.mem_pair.mp (List.mem_of_getElem? hk) with rfl | rfl
    · rw [hwrite.handle, hwrite.reqType, hwrite.dataLen]
      rfl
    · rw [hread.handle, hread.reqType, hread.dataLen]
      rfl
  · simp only [List.forall_mem_cons]
    refine ⟨fun hs => ?_, fun hs => hs.2.1 rfl, nofun⟩
    have htype := hs.1
    rw [hwrite.reqType] at htype
    exact absurd htype (by decide)

/-- Completed with an error it is sent with its data, which the client then takes for
its next reply. -/
theorem misread_failure : ∃ m, Accepted m ∧
    Waiting (fun _ _ => some ⟨NBD_CMD_READ, 1024⟩) [⟨m, 5, fun _ => 100⟩] ∧
      ¬Parsed (fun _ _ => some ⟨NBD_CMD_READ, 1024⟩) [⟨m, 5, fun _ => 100⟩] := by
  obtain ⟨m, haccepted, hread⟩ := accepted_encode kilobyte
  have htype : m.nbdReq.reqType = NBD_CMD_READ := hread.reqType
  have hlen : m.nbdReq.dataLen = 1024 := hread.dataLen
  have hall : ∀ c ∈ [(⟨m, 5, fun _ => 100⟩ : Completion)], Accepted c.message :=
    List.forall_mem_singleton.mpr haccepted
  refine ⟨m, haccepted, fun k c hk => ?_, ?_⟩
  · obtain rfl := List.mem_singleton.mp (List.mem_of_getElem? hk)
    rw [htype, hlen]
  · rintro ⟨bytes, hbytes, hparsed⟩
    rw [written_eq hall, Option.some.injEq] at hbytes
    have hsurplus := surplus_longer hall (by rw [hbytes, clientReplies_length hparsed])
    exact hsurplus _ (List.mem_singleton_self _)
      ⟨htype, (by decide : (5 : UInt32) ≠ 0), by rw [hlen]; decide⟩

end Completion
end PrivateCloud.Nbd
