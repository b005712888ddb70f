import PrivateCloud.Host.RequestHost

/-! What the socket calls of a request transfer.

`recv` and `sendmsg` may do less than they were asked for. `recv_all` goes on until it
has everything, which is right for a call that consumes and wrong for one that peeks:
each further call looks at the front of the stream again. `SendRequest` compares the
result of `sendmsg` with -1 only, and `SendMsgWrapper` does not look at what
`SendRequest` returns.

`peek_iff` is exactly when a peek finds the uid at the front of the stream, and
`sends_whole_iff` exactly when a task that returns 0 has sent what it was to send. -/
namespace PrivateCloud.Host
open Nbd

namespace RequestHost

/-! ### Peeking -/

/-- The uid peeked is the one at the front of the stream, which stays as it was: the
header read from it next carries the same uid. -/
def PeeksUid (s : Socket) : Prop :=
  ∃ uid t, peek s = .ok (uid, t) ∧ uid = loadU32 (s.bytes.take 4) ∧ t.bytes = s.bytes ∧
    ∀ header u, recvAll false sizeofAtlasHeader t = some (header, u) →
      (AtlasHeader.load header).requestUid = uid

/-- The calls of a peek return all four bytes at once, or bytes that make up for their
beginning again each time. -/
def Repeats (s : Socket) : Prop :=
  match s.bytes with
  | b₀ :: b₁ :: b₂ :: b₃ :: _ =>
    4 ≤ s.cuts 0 ∨ (s.cuts 0 = 3 ∧ b₃ = b₀) ∨
      (s.cuts 0 = 2 ∧ b₂ = b₀ ∧ b₃ = if 2 ≤ s.cuts 1 then b₁ else b₀) ∨
        (s.cuts 0 ≤ 1 ∧ b₁ = b₀ ∧ b₂ = b₀ ∧ b₃ = b₀)
  | _ => False

/-- A first call that returns one byte: whatever the others return, every byte stored
after it is compared with it. -/
theorem peeked_one (b₀ b₁ b₂ b₃ : UInt8) (rest : List UInt8) (cuts : ℕ → ℕ) (hone : cuts 0 ≤ 1) :
    Socket.peeked (b₀ :: b₁ :: b₂ :: b₃ :: rest) 4 4 cuts = [b₀, b₁, b₂, b₃] ↔
      b₁ = b₀ ∧ b₂ = b₀ ∧ b₃ = b₀ := by
  have hfirst : min (max 1 (cuts 0)) 4 = 1 := by omega
  have hcuts : cuts 1 ≤ 1 ∨ cuts 1 = 2 ∨ 3 ≤ cuts 1 := by omega
  rcases hcuts with hsecond | hsecond | hsecond
  · have hsecond : min (max 1 (cuts 1)) 3 = 1 := by omega
    rcases Nat.lt_or_ge (cuts 2) 2 with hthird | hthird
    · have hthird : min (max 1 (cuts 2)) 2 = 1 := by omega
      simp [Socket.peeked, hfirst, hsecond, hthird]
      grind
    · have hthird : min (max 1 (cuts 2)) 2 = 2 := by omega
      simp [Socket.peeked, hfirst, hsecond, hthird]
      grind
  · have hsecond : min (max 1 (cuts 1)) 3 = 2 := by omega
    simp [Socket.peeked, hfirst, hsecond]
    grind
  · have hsecond : min (max 1 (cuts 1)) 3 = 3 := by omega
    simp [Socket.peeked, hfirst, hsecond]
    grind

/-- The peek of a uid, however the four bytes are cut. -/
theorem peeked_iff (b₀ b₁ b₂ b₃ : UInt8) (rest : List UInt8) (cuts : ℕ → ℕ) :
    Socket.peeked (b₀ :: b₁ :: b₂ :: b₃ :: rest) 4 4 cuts = [b₀, b₁, b₂, b₃] ↔
      Repeats ⟨b₀ :: b₁ :: b₂ :: b₃ :: rest, cuts⟩ := by
  have hcuts : cuts 0 ≤ 1 ∨ cuts 0 = 2 ∨ cuts 0 = 3 ∨ 4 ≤ cuts 0 := by omega
  rcases hcuts with hone | htwo | hthree | hfour
  · rw [peeked_one b₀ b₁ b₂ b₃ rest cuts hone]
    have hsmall : ¬4 ≤ cuts 0 ∧ ¬cuts 0 = 3 ∧ ¬cuts 0 = 2 := by omega
    simp only [Repeats, hsmall, hone, false_and, false_or, true_and]
  · rcases Nat.lt_or_ge (cuts 1) 2 with hsecond | hsecond
    · have hnext : min (max 1 (cuts 1)) 2 = 1 := by omega
      have hlt : ¬2 ≤ cuts 1 := by omega
      simp [Socket.peeked, Repeats, htwo, hnext, hlt, eq_comm]
    · simp [Socket.peeked, Repeats, htwo, hsecond, eq_comm]
  · simp [Socket.peeked, Repeats, hthree, eq_comm]
  · simp [Socket.peeked, Repeats, hfour]

/-- **Peeking a uid.** It is the one at the front exactly if the four bytes came at
once or repeat. -/
theorem peek_iff (s : Socket) (h : 4 ≤ s.bytes.length) : PeeksUid s ↔ Repeats s := by
  obtain ⟨cuts', hloop⟩ := s.readLoop_peeked 4 4 (Nat.le_refl _) h (by decide)
  obtain ⟨bytes, cuts⟩ := s
  obtain ⟨b₀, b₁, b₂, b₃, rest, rfl⟩ : ∃ b₀ b₁ b₂ b₃ rest, bytes = b₀ :: b₁ :: b₂ :: b₃ :: rest := by
    match bytes, h with
    | b₀ :: b₁ :: b₂ :: b₃ :: rest, _ => exact ⟨b₀, b₁, b₂, b₃, rest, rfl⟩
  have hlength := Socket.peeked_length (b₀ :: b₁ :: b₂ :: b₃ :: rest) 4 4 cuts (Nat.le_refl _) h
  have hpeek : peek ⟨b₀ :: b₁ :: b₂ :: b₃ :: rest, cuts⟩ =
      .ok (loadU32 (Socket.peeked (b₀ :: b₁ :: b₂ :: b₃ :: rest) 4 4 cuts),
        ⟨b₀ :: b₁ :: b₂ :: b₃ :: rest, cuts'⟩) := by
    simp only [peek, recvAll, hloop]
  rw [← peeked_iff]
  constructor
  · rintro ⟨uid, t, ht, huid, -⟩
    rw [hpeek] at ht
    obtain ⟨rfl, -⟩ := Prod.mk.inj (Except.ok.inj ht)
    exact loadU32_inj hlength rfl huid
  · intro hpeeked
    rw [hpeeked] at hpeek
    refine ⟨_, _, hpeek, rfl, rfl, fun header u hheader => ?_⟩
    -- The header begins with the bytes that were peeked.
    rw [Socket.readLoop_some (Nat.le_refl _) hheader]
    rfl

/-- The reply of request 256. -/
def replyOf256 : List UInt8 := AtlasHeader.store ⟨256, 0, 0, 0, NBD_CMD_WRITE, 1024⟩

theorem peek_whole : PeeksUid ⟨replyOf256, fun _ => 4⟩ ↔ Repeats ⟨replyOf256, fun _ => 4⟩ :=
  peek_iff ⟨replyOf256, fun _ => 4⟩ (by decide)

/-- Its first byte alone, then the three bytes asked for: request 65536 is peeked. -/
theorem peek_first_byte : ¬PeeksUid ⟨replyOf256, fun i => if i = 0 then 1 else 3⟩ := by
  rintro ⟨uid, t, ht, huid, -⟩
  have hpeek : (peek ⟨replyOf256, fun i => if i = 0 then 1 else 3⟩).toOption.map Prod.fst =
      some 65536 := by
    decide
  rw [ht] at hpeek
  have heq : uid = 65536 := Option.some.inj hpeek
  rw [heq] at huid
  exact absurd huid (by decide)

/-! ### Sending

What `sendmsg` does with a message is up to the kernel. -/

end RequestHost

inductive Outcome where
  | whole
  /-- The first `n` bytes, and `n` for a result. -/
  | short (n : ℕ)
  /-- -1 -/
  | failed
  deriving DecidableEq

/-- A short count is less than the message and more than nothing. -/
def Outcome.Possible (total : ℕ) : Outcome → Prop
  | .short n => 0 < n ∧ n < total
  | _ => True

/-- What is put on the socket, and the result. -/
def sendmsg (message : List UInt8) : Outcome → List UInt8 × Int
  | .whole => (message, message.length)
  | .short n => (message.take n, n)
  | .failed => ([], -1)

/-- `ReadRequest::SendRequest`, `WriteRequest::SendRequest`: what it put on the socket,
and what it returns. -/
def Command.send (dataBuf : Memory) (info : SendMsgInfo) (command : Command) (outcome : Outcome) :
    List UInt8 × Int :=
  let call := sendmsg (info.atlasHeader.store ++ command.sendRequest dataBuf info) outcome
  (call.1, if call.2 = -1 then 1 else 0)

namespace RequestHost

/-- `SendMsgWrapper`'s loop, with what its calls of `sendmsg` put on the socket; `turn`
counts them. A type without a command is a call through a null creator. -/
def putLoop (h : RequestHost) (outcomes : ℕ → Outcome) :
    (fuel turn : ℕ) → UInt32 → SendMsgInfo → Option (List (List UInt8))
  | 0, _, _, _ => some []
  | fuel + 1, turn, i, info =>
    if i < fragments h.dataLen then
      match creators.create info.atlasHeader.type with
      | none => none
      | some command =>
        -- What `SendRequest` returns is dropped.
        let (put, _) := command.send h.nbqReq.nbdReq.dataBuf info (outcomes turn)
        (putLoop h outcomes fuel (turn + 1) (i + numOfIot) info.advance).map fun rest => put :: rest
    else some []

/-- A task from start to end: what each of its calls put on the socket, and the status
it returns, which `Task::Run` stores. -/
def sendMsgWrapperPuts (h : RequestHost) (info : SendMsgInfo) (outcomes : ℕ → Outcome) :
    Option (List (List UInt8) × Int) :=
  (h.putLoop outcomes (fragments h.dataLen).toNat 0 info.atlasHeader.fragmentUid info).map
    fun puts => (puts, 0)

/-- The message a task owes its node for a fragment. -/
def message (h : RequestHost) (info : SendMsgInfo) : List UInt8 :=
  info.atlasHeader.store ++
    if h.nbqReq.nbdReq.reqType = NBD_CMD_WRITE then h.nbqReq.nbdReq.dataBuf.read info.startDataBuff 1024
    else []

def messageLength (h : RequestHost) : ℕ :=
  sizeofAtlasHeader + if h.nbqReq.nbdReq.reqType = NBD_CMD_WRITE then 1024 else 0

/-- A task that returns 0 has put all its messages on the socket, whole and in order, and
none is begun in the middle of another. -/
def SendsWhole (h : RequestHost) (info : SendMsgInfo) (outcomes : ℕ → Outcome) : Prop :=
  ∀ puts status, h.sendMsgWrapperPuts info outcomes = some (puts, status) →
    (status = 0 → puts.flatten = ((h.sendMsgWrapper info).map h.message).flatten) ∧
    ∀ turn put, turn + 1 < puts.length → puts[turn]? = some put →
      put = [] ∨ ((h.sendMsgWrapper info).map h.message)[turn]? = some put

@[simp] theorem message_length (h : RequestHost) (info : SendMsgInfo) :
    (h.message info).length = h.messageLength := by
  unfold message messageLength
  rw [List.length_append, AtlasHeader.store_length]
  split
  case isTrue => rw [Memory.read_length]
  case isFalse => rfl

theorem messages_length (h : RequestHost) (infos : List SendMsgInfo) :
    ((infos.map h.message).flatten).length = infos.length * h.messageLength := by
  induction infos with
  | nil => exact (Nat.zero_mul _).symm
  | cons info infos ih =>
    rw [List.map_cons, List.flatten_cons, List.length_append, message_length, ih, List.length_cons,
      Nat.add_one_mul, Nat.add_comm]

/-- What one call puts on the socket. -/
def put (h : RequestHost) (info : SendMsgInfo) (outcome : Outcome) : List UInt8 :=
  (sendmsg (h.message info) outcome).1

/-- The command puts on the socket what the outcome leaves of the fragment's message. -/
theorem command_send {h : RequestHost} {info : SendMsgInfo} (hinfo : h.OfRequest info)
    {command : Command} (hcommand : creators.create info.atlasHeader.type = some command)
    (outcome : Outcome) :
    (command.send h.nbqReq.nbdReq.dataBuf info outcome).1 = h.put info outcome := by
  have hmessage : info.atlasHeader.store ++ command.sendRequest h.nbqReq.nbdReq.dataBuf info =
      h.message info := by
    rw [hinfo.1] at hcommand
    rcases creators_create _ _ hcommand with ⟨hread, rfl⟩ | ⟨hwrite, rfl⟩
    · have hnot : ¬h.nbqReq.nbdReq.reqType = NBD_CMD_WRITE := by
        rw [hread]
        decide
      simp only [message, Command.sendRequest, if_neg hnot]
    · simp only [message, Command.sendRequest, if_pos hwrite, hinfo.2]
      rfl
  simp only [Command.send, hmessage, put]

/-- The loop makes one call for each fragment of the task. -/
theorem putLoop_eq {h : RequestHost} (htype : Registered h.nbqReq.nbdReq.reqType)
    (outcomes : ℕ → Outcome) (fuel turn : ℕ) (i : UInt32) {info : SendMsgInfo} (hinfo : h.OfRequest info) :
    h.putLoop outcomes fuel turn i info =
      some (((sendLoop h.dataLen fuel i info).zipIdx turn).map fun sent =>
        h.put sent.1 (outcomes sent.2)) := by
  induction fuel generalizing turn i info with
  | zero => rfl
  | succ fuel ih =>
    rw [putLoop, sendLoop]
    by_cases htest : i < fragments h.dataLen
    · obtain ⟨command, hcommand⟩ := (registered_iff _).mp htype
      rw [← hinfo.1] at hcommand
      have hnext : h.OfRequest info.advance := hinfo
      rw [if_pos htest, if_pos htest, hcommand, List.zipIdx_cons, List.map_cons]
      simp only [ih (turn + 1) (i + numOfIot) hnext, command_send hinfo hcommand, Option.map_some]
    · rw [if_neg htest, if_neg htest]
      rfl

/-- Without a command the loop has no turn, or does not come back from its first. -/
theorem putLoop_unregistered {h : RequestHost} (htype : ¬Registered h.nbqReq.nbdReq.reqType)
    (outcomes : ℕ → Outcome) (fuel turn : ℕ) (i : UInt32) {info : SendMsgInfo} (hinfo : h.OfRequest info) :
    h.putLoop outcomes fuel turn i info = none ∨
      (h.putLoop outcomes fuel turn i info = some [] ∧ sendLoop h.dataLen fuel i info = []) := by
  cases fuel with
  | zero => exact Or.inr ⟨rfl, rfl⟩
  | succ fuel =>
    rw [putLoop, sendLoop]
    by_cases htest : i < fragments h.dataLen
    · rw [← hinfo.1] at htype
      rw [if_pos htest, create_eq_none htype]
      exact Or.inl rfl
    · rw [if_neg htest, if_neg htest]
      exact Or.inr ⟨rfl, rfl⟩

theorem put_whole (h : RequestHost) (info : SendMsgInfo) : h.put info .whole = h.message info := rfl

/-- Nothing but a whole message is as long as one. -/
theorem put_length_lt {h : RequestHost} (info : SendMsgInfo) {outcome : Outcome}
    (hpossible : outcome.Possible h.messageLength) (hne : outcome ≠ .whole) :
    (h.put info outcome).length < h.messageLength := by
  cases outcome with
  | whole => exact absurd rfl hne
  | short n =>
    simp only [put, sendmsg, List.length_take, message_length]
    exact lt_of_le_of_lt (Nat.min_le_left _ _) hpossible.2
  | failed =>
    simp only [put, sendmsg, List.length_nil, messageLength, sizeofAtlasHeader]
    omega

theorem put_length_le {h : RequestHost} (info : SendMsgInfo) {outcome : Outcome}
    (hpossible : outcome.Possible h.messageLength) : (h.put info outcome).length ≤ h.messageLength := by
  by_cases hwhole : outcome = .whole
  · rw [hwhole, put_whole, message_length]
  · exact Nat.le_of_lt (put_length_lt info hpossible hwhole)

/-- As many bytes as messages of that length have come from whole messages only. -/
theorem whole_of_length {h : RequestHost} {outcomes : ℕ → Outcome}
    (hpossible : ∀ turn, (outcomes turn).Possible h.messageLength) (calls : List (SendMsgInfo × ℕ))
    (hlength : calls.length * h.messageLength ≤
      ((calls.map fun sent => h.put sent.1 (outcomes sent.2)).flatten).length) :
    ∀ sent ∈ calls, outcomes sent.2 = .whole := by
  have hle (calls : List (SendMsgInfo × ℕ)) :
      ((calls.map fun sent => h.put sent.1 (outcomes sent.2)).flatten).length ≤
        calls.length * h.messageLength := by
    induction calls with
    | nil => exact Nat.zero_le _
    | cons sent calls ih =>
      have := put_length_le sent.1 (hpossible sent.2)
      rw [List.map_cons, List.flatten_cons, List.length_append, List.length_cons, Nat.add_one_mul]
      omega
  induction calls with
  | nil => nofun
  | cons sent calls ih =>
    have hfirst := put_length_le sent.1 (hpossible sent.2)
    have hrest := hle calls
    rw [List.map_cons, List.flatten_cons, List.length_append, List.length_cons, Nat.add_one_mul] at hlength
    intro other hother
    rcases List.mem_cons.mp hother with rfl | hother
    · by_contra hne
      have := put_length_lt other.1 (hpossible other.2) hne
      omega
    · exact ih (by omega) other hother

/-- **Which tasks send what they say.** A task's status is true exactly if each of its
calls put the whole message on the socket, or the request's type has no command. -/
theorem sends_whole_iff (h : RequestHost) {info : SendMsgInfo} (hinfo : info ∈ h.distribute)
    (outcomes : ℕ → Outcome) (hpossible : ∀ turn, (outcomes turn).Possible h.messageLength) :
    h.SendsWhole info outcomes ↔ (Registered h.nbqReq.nbdReq.reqType →
      ∀ turn < (h.sendMsgWrapper info).length, outcomes turn = .whole) := by
  have hof := ofRequest_distribute hinfo
  by_cases htype : Registered h.nbqReq.nbdReq.reqType
  · have hputs : h.sendMsgWrapperPuts info outcomes =
        some (((h.sendMsgWrapper info).zipIdx 0).map fun sent => h.put sent.1 (outcomes sent.2), 0) := by
      rw [sendMsgWrapperPuts, putLoop_eq htype outcomes _ _ _ hof]
      rfl
    have hcall {turn : ℕ} {info' : SendMsgInfo} (hget : (h.sendMsgWrapper info)[turn]? = some info') :
        (info', turn) ∈ (h.sendMsgWrapper info).zipIdx 0 := List.mk_mem_zipIdx_iff_getElem?.mpr hget
    constructor
    · intro hsends _ turn hturn
      obtain ⟨hflat, -⟩ := hsends _ _ hputs
      have hlength := congrArg List.length (hflat rfl)
      rw [messages_length] at hlength
      refine whole_of_length hpossible ((h.sendMsgWrapper info).zipIdx 0) ?_ _
        (hcall (List.getElem?_eq_getElem hturn))
      rw [hlength, List.length_zipIdx]
    · intro hwhole puts status hreturn
      have hmessages : ((h.sendMsgWrapper info).zipIdx 0).map (fun sent => h.put sent.1 (outcomes sent.2)) =
          (h.sendMsgWrapper info).map h.message := by
        conv_rhs => rw [← List.zipIdx_map_fst 0 (h.sendMsgWrapper info), List.map_map]
        apply List.map_congr_left
        intro sent hsent
        have hget := List.mem_zipIdx_iff_getElem?.mp hsent
        have hturn := (List.getElem?_eq_some_iff.mp hget).1
        rw [Function.comp_apply, hwhole htype sent.2 hturn, put_whole]
      rw [hputs, Option.some.injEq, Prod.mk.injEq, hmessages] at hreturn
      obtain ⟨rfl, rfl⟩ := hreturn
      exact ⟨fun _ => rfl, fun turn put _ hput => Or.inr hput⟩
  · refine ⟨fun _ hcon => absurd hcon htype, fun _ puts status hreturn => ?_⟩
    rcases putLoop_unregistered htype outcomes (fragments h.dataLen).toNat 0
      info.atlasHeader.fragmentUid hof with hnone | ⟨hputs, hsent⟩
    · rw [sendMsgWrapperPuts, hnone] at hreturn
      cases hreturn
    · rw [sendMsgWrapperPuts, hputs] at hreturn
      obtain ⟨rfl, rfl⟩ := Prod.mk.inj (Option.some.inj hreturn)
      rw [show h.sendMsgWrapper info = [] from hsent]
      exact ⟨fun _ => rfl, fun turn put hturn _ => by simp at hturn⟩

/-- A WRITE of nine fragments: its first task sends two of them. -/
def nineWrite : RequestHost := create 0 ⟨⟨NBD_CMD_WRITE, 9216, 0, fun _ => 0⟩, ⟨0, 0, []⟩⟩

/-- Whole messages will do, and if the second is cut short nothing will. -/
theorem nineWrite_whole : (nineWrite.sendMsgWrapper (nineWrite.infoAt 0)).length = 2 ∧
    nineWrite.SendsWhole (nineWrite.infoAt 0) (fun _ => .whole) ∧
      ¬nineWrite.SendsWhole (nineWrite.infoAt 0) (fun turn => if turn = 1 then .short 100 else .whole) := by
  have hinfo : nineWrite.infoAt 0 ∈ nineWrite.distribute := by
    rw [distribute_eq]
    exact List.mem_map_of_mem (by decide)
  have hlength : (nineWrite.sendMsgWrapper (nineWrite.infoAt 0)).length = 2 := by decide
  refine ⟨hlength, ?_, fun hsends => ?_⟩
  · exact (nineWrite.sends_whole_iff hinfo (fun _ => .whole) fun _ => trivial).mpr fun _ _ _ => rfl
  · have hpossible (turn : ℕ) :
        (if turn = 1 then Outcome.short 100 else .whole).Possible nineWrite.messageLength := by
      split
      · show 0 < 100 ∧ 100 < nineWrite.messageLength
        decide
      · trivial
    have hall := (nineWrite.sends_whole_iff hinfo _ hpossible).mp hsends (Or.inr rfl) 1
      (by rw [hlength]; decide)
    cases hall

/-- A WRITE of one fragment. -/
def oneWrite : RequestHost := create 0 ⟨⟨NBD_CMD_WRITE, 1024, 0, fun _ => 0⟩, ⟨0, 0, []⟩⟩

/-- Nothing of it is sent, and the task returns 0. -/
theorem oneWrite_failed : oneWrite.infoAt 0 ∈ oneWrite.distribute ∧
    Outcome.failed.Possible oneWrite.messageLength ∧
      ¬oneWrite.SendsWhole (oneWrite.infoAt 0) (fun _ => .failed) := by
  refine ⟨by rw [distribute_eq]; exact List.mem_map_of_mem (by decide), trivial, fun hsends => ?_⟩
  obtain ⟨hflat, -⟩ := hsends [[]] 0 rfl
  have hlength := congrArg List.length (hflat rfl)
  rw [messages_length] at hlength
  exact absurd hlength (by decide)

end RequestHost
end PrivateCloud.Host
