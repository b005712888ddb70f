import Mathlib.Data.Finset.Erase
import Mathlib.Data.Finset.Range
import Mathlib.Data.Finset.Insert
import Mathlib.Data.List.Range
import Mathlib.Logic.Function.Iterate
import PrivateCloud.Host.Command

/-! One request and its fragments: `RequestHost.cpp`.

`create` cuts a request into fragments of a kilobyte, `distribute` hands them to the
pool in up to eight tasks, `sendMsgWrapper` is one task: it sends every eighth
fragment, to one node, advancing the fragment, its place in the buffer and its place
on the node by repeated addition. `readReaply` takes a reply off a node's socket and
crosses its fragment off. Each of them computes the number of fragments again, by
truncating division.

`infoAt i` is what the task that sends fragment `i` sends it from; `distribute_eq`
and `sendLoop_eq` say that the tasks send from nothing else. -/
namespace PrivateCloud.Host
open Nbd

def fragSize : UInt32 := 1024
def numOfIot : UInt32 := 8

/-- `dataLen/Consts::frag_size` -/
def fragments (dataLen : UInt32) : UInt32 := dataLen / fragSize

/-- `fragmentation_set` is a set of `int`s that were `uint32_t`s; the conversion loses
nothing, so a member is the number it was. -/
structure RequestHost where
  nbqReq : NbdMessage
  reqUid : UInt32
  fragmentationSet : Finset ℕ

/-- What can end the process in the handling of a reply. -/
inductive Fault where
  /-- `assert(bytes_read > 0)` -/
  | bytesRead
  /-- A null `m_activeRequests` entry used as a request. -/
  | nullRequest
  /-- A fragment written outside the request's buffer. -/
  | overrun
  deriving DecidableEq

namespace SendMsgInfo

/-- The end of the loop body: on to the task's next fragment. -/
def advance (info : SendMsgInfo) : SendMsgInfo :=
  { info with
    atlasHeader := { info.atlasHeader with
      iotOffset := info.atlasHeader.iotOffset + fragSize
      fragmentUid := info.atlasHeader.fragmentUid + numOfIot }
    startDataBuff := info.startDataBuff + (numOfIot * fragSize).toNat }

end SendMsgInfo

namespace RequestHost

def dataLen (h : RequestHost) : UInt32 := h.nbqReq.nbdReq.dataLen

/-- `Create`, with the uid it takes from its counter and the message it has read. -/
def create (reqUid : UInt32) (message : NbdMessage) : RequestHost where
  nbqReq := message
  reqUid := reqUid
  fragmentationSet :=
    (List.range (fragments message.nbdReq.dataLen).toNat).foldl (fun set i => insert i set) ∅

/-! ### Sending -/

/-- The task made in turn `j` of `Distribute`'s loop. -/
def info (h : RequestHost) (j : ℕ) (firstFragIndx : Int32) : SendMsgInfo where
  sockfd := (firstFragIndx.toUInt32 % numOfIot).toNat + 1
  atlasHeader :=
    { requestUid := h.reqUid
      fragmentUid := UInt32.ofNat j
      alarmUid := 0
      iotOffset := firstFragIndx.toUInt32 * fragSize / numOfIot
      type := h.nbqReq.nbdReq.reqType
      len := fragSize }
  startDataBuff := (UInt32.ofNat j * fragSize).toNat

/-- `offset/Consts::frag_size`, narrowed to an `int`. -/
def firstFragIndx (h : RequestHost) : Int32 :=
  (h.nbqReq.nbdReq.offset / fragSize.toUInt64).toUInt32.toInt32

def numOfIterations (h : RequestHost) : UInt32 :=
  if fragments h.dataLen < numOfIot then fragments h.dataLen else numOfIot

def distributeLoop (h : RequestHost) : (turns j : ℕ) → Int32 → List SendMsgInfo
  | 0, _, _ => []
  | turns + 1, j, firstFragIndx =>
    h.info j firstFragIndx :: h.distributeLoop turns (j + 1) (firstFragIndx + 1)

/-- What `Distribute` hands to the pool, in order. -/
def distribute (h : RequestHost) : List SendMsgInfo :=
  h.distributeLoop h.numOfIterations.toNat 0 h.firstFragIndx

/-- What `SendMsgWrapper`'s loop sends from, turn by turn. -/
def sendLoop (dataLen : UInt32) : (fuel : ℕ) → UInt32 → SendMsgInfo → List SendMsgInfo
  | 0, _, _ => []
  | fuel + 1, i, info =>
    if i < fragments dataLen then info :: sendLoop dataLen fuel (i + numOfIot) info.advance else []

/-- A task from start to end, every turn of it a different fragment. -/
def sendMsgWrapper (h : RequestHost) (info : SendMsgInfo) : List SendMsgInfo :=
  sendLoop h.dataLen (fragments h.dataLen).toNat info.atlasHeader.fragmentUid info

/-! ### Replies -/

def recvAll (peek : Bool) (count : ℕ) (s : Socket) : Option (List UInt8 × Socket) :=
  s.readLoop peek count count

/-- The uid of the reply on the socket, and the socket after looking. -/
def peek (s : Socket) : Except Fault (UInt32 × Socket) :=
  match recvAll true 4 s with
  | none => .error .bytesRead
  | some (bytes, s) => .ok (loadU32 bytes, s)

/-- The data of a READ's reply, received straight into the request's buffer. -/
def receiveData (h : RequestHost) (header : AtlasHeader) (s : Socket) :
    Except Fault (NbdMessage × Socket) :=
  if h.nbqReq.nbdReq.reqType = NBD_CMD_READ then
    let start := (header.fragmentUid * fragSize).toNat
    match recvAll false fragSize.toNat s with
    | none => .error .bytesRead
    | some (data, s) =>
      if start + fragSize.toNat ≤ h.dataLen.toNat then
        .ok ({h.nbqReq with nbdReq := {h.nbqReq.nbdReq with
          dataBuf := h.nbqReq.nbdReq.dataBuf.write start data}}, s)
      else .error .overrun
  else .ok (h.nbqReq, s)

/-- `ReadReaply`, up to the test for the last fragment. -/
def readReaply (h : RequestHost) (s : Socket) : Except Fault (RequestHost × Socket) :=
  match recvAll false sizeofAtlasHeader s with
  | none => .error .bytesRead
  | some (bytes, s) =>
    let header := AtlasHeader.load bytes
    match h.receiveData header s with
    | .error fault => .error fault
    | .ok (message, s) =>
      .ok ({h with
        nbqReq := message
        fragmentationSet := h.fragmentationSet.erase header.fragmentUid.toNat}, s)

/-! ### The tasks of a request -/

theorem foldl_insert (n : ℕ) :
    (List.range n).foldl (fun (set : Finset ℕ) i => insert i set) ∅ = Finset.range n := by
  induction n with
  | zero => rfl
  | succ n ih =>
    rw [List.range_succ, List.foldl_append, ih, Finset.range_add_one]
    rfl

theorem create_fragmentationSet (reqUid : UInt32) (message : NbdMessage) :
    (create reqUid message).fragmentationSet =
      Finset.range (fragments message.nbdReq.dataLen).toNat :=
  foldl_insert _

/-- The number of fragments of the request. -/
def count (h : RequestHost) : ℕ := (fragments h.dataLen).toNat

theorem toNat_fragments (dataLen : UInt32) : (fragments dataLen).toNat = dataLen.toNat / 1024 :=
  UInt32.toNat_div dataLen fragSize

theorem count_eq (h : RequestHost) : h.count = h.dataLen.toNat / 1024 := toNat_fragments _

theorem count_lt (h : RequestHost) : h.count < 2 ^ 22 := by
  have := h.dataLen.toNat_lt
  rw [count_eq]
  omega

/-- A fragment has its slice inside the buffer, and no wrap on the way there. -/
theorem slice_inside (h : RequestHost) {i : UInt32} (hi : i.toNat < h.count) :
    (i * fragSize).toNat = i.toNat * 1024 ∧ i.toNat * 1024 + 1024 ≤ h.dataLen.toNat := by
  have hcount := h.count_lt
  constructor
  · rw [UInt32.toNat_mul]
    show i.toNat * 1024 % 2 ^ 32 = _
    omega
  · rw [count_eq] at hi
    omega

/-- The first block of the device the request is about. -/
def firstBlock (h : RequestHost) : ℕ := h.nbqReq.nbdReq.offset.toNat / 1024

/-- What fragment `i` is sent from: its task's first fragment, advanced. -/
def infoAt (h : RequestHost) (i : ℕ) : SendMsgInfo :=
  SendMsgInfo.advance^[i / 8] (h.info (i % 8) (h.firstFragIndx + Int32.ofNat (i % 8)))

theorem infoAt_of_lt (h : RequestHost) {j : ℕ} (hj : j < 8) :
    h.infoAt j = h.info j (h.firstFragIndx + Int32.ofNat j) := by
  rw [infoAt, Nat.div_eq_of_lt hj, Nat.mod_eq_of_lt hj]
  rfl

theorem infoAt_advance (h : RequestHost) (i : ℕ) : h.infoAt (i + 8) = (h.infoAt i).advance := by
  rw [infoAt, Nat.add_div_right i (by decide), Nat.add_mod_right, Function.iterate_succ_apply']
  rfl

theorem distributeLoop_eq (h : RequestHost) (turns j : ℕ) (first : Int32) :
    h.distributeLoop turns j first =
      (List.range turns).map fun k => h.info (j + k) (first + Int32.ofNat k) := by
  induction turns generalizing j first with
  | zero => rfl
  | succ turns ih =>
    rw [distributeLoop, ih, List.range_succ_eq_map, List.map_cons, List.map_map]
    have hzero : first + Int32.ofNat 0 = first := Int32.add_zero first
    rw [Nat.add_zero, hzero]
    congr 1
    apply List.map_congr_left
    intro k _
    have hfirst : first + 1 + Int32.ofNat k = first + Int32.ofNat (k + 1) := by
      rw [Int32.ofNat_add]
      show _ = first + (Int32.ofNat k + 1)
      rw [Int32.add_comm (Int32.ofNat k) 1, Int32.add_assoc]
    simp only [Function.comp_apply, Nat.succ_eq_add_one, hfirst]
    congr 1
    omega

theorem numOfIterations_eq (h : RequestHost) : h.numOfIterations.toNat = min h.count 8 := by
  unfold numOfIterations
  split
  case isTrue hlt =>
    have : (fragments h.dataLen).toNat < 8 := UInt32.lt_iff_toNat_lt.mp hlt
    simp only [count]
    omega
  case isFalse hge =>
    have : ¬(fragments h.dataLen).toNat < 8 := fun hlt => hge (UInt32.lt_iff_toNat_lt.mpr hlt)
    have h8 : numOfIot.toNat = 8 := rfl
    simp only [count]
    omega

/-- The tasks of a request, one for each of its first eight fragments. -/
theorem distribute_eq (h : RequestHost) :
    h.distribute = (List.range (min h.count 8)).map h.infoAt := by
  rw [distribute, numOfIterations_eq, distributeLoop_eq]
  apply List.map_congr_left
  intro j hj
  have hlt := List.mem_range.mp hj
  rw [Nat.zero_add, infoAt_of_lt h (by omega)]

/-- The loop test, on the number a fragment has. -/
theorem lt_fragments {i : ℕ} (dataLen : UInt32) (hi : i < 2 ^ 32) :
    UInt32.ofNat i < fragments dataLen ↔ i < dataLen.toNat / 1024 := by
  rw [UInt32.lt_iff_toNat_lt, UInt32.toNat_ofNat_of_lt' hi, toNat_fragments]

theorem ofNat_add_numOfIot (i : ℕ) : UInt32.ofNat i + numOfIot = UInt32.ofNat (i + 8) :=
  (UInt32.ofNat_add i 8).symm

theorem advance_iterate (info : SendMsgInfo) (k : ℕ) :
    SendMsgInfo.advance^[k] info = { info with
      atlasHeader := { info.atlasHeader with
        iotOffset := info.atlasHeader.iotOffset + UInt32.ofNat k * fragSize
        fragmentUid := info.atlasHeader.fragmentUid + UInt32.ofNat k * numOfIot }
      startDataBuff := info.startDataBuff + k * 8192 } := by
  induction k with
  | zero => simp
  | succ k ih =>
    have hstep (x : UInt32) : UInt32.ofNat k * x + x = UInt32.ofNat (k + 1) * x := by
      rw [UInt32.ofNat_add, UInt32.add_mul]
      show _ = _ + 1 * x
      rw [UInt32.one_mul]
    rw [Function.iterate_succ_apply', ih]
    simp only [SendMsgInfo.advance, UInt32.add_assoc, hstep, SendMsgInfo.mk.injEq, true_and]
    show info.startDataBuff + k * 8192 + 8192 = _
    omega

/-- Everything fragment `i` is sent with, in the arithmetic of the source. -/
theorem infoAt_eq (h : RequestHost) (i : ℕ) : h.infoAt i =
    { sockfd := ((h.firstFragIndx + Int32.ofNat (i % 8)).toUInt32 % numOfIot).toNat + 1
      atlasHeader :=
        { requestUid := h.reqUid
          fragmentUid := UInt32.ofNat i
          alarmUid := 0
          iotOffset := (h.firstFragIndx + Int32.ofNat (i % 8)).toUInt32 * fragSize / numOfIot +
            UInt32.ofNat (i / 8) * fragSize
          type := h.nbqReq.nbdReq.reqType
          len := fragSize }
      startDataBuff := i * 1024 } := by
  have huid : UInt32.ofNat (i % 8) + UInt32.ofNat (i / 8) * numOfIot = UInt32.ofNat i := by
    rw [show numOfIot = UInt32.ofNat 8 from rfl, ← UInt32.ofNat_mul, ← UInt32.ofNat_add]
    congr 1
    omega
  have hstart : (UInt32.ofNat (i % 8) * fragSize).toNat + i / 8 * 8192 = i * 1024 := by
    have hmod : i % 8 < 8 := Nat.mod_lt _ (by decide)
    rw [UInt32.toNat_mul, UInt32.toNat_ofNat_of_lt' (by omega : i % 8 < 2 ^ 32)]
    show i % 8 * 1024 % 2 ^ 32 + _ = _
    omega
  simp only [infoAt, advance_iterate, info, huid, hstart]

theorem infoAt_fragmentUid (h : RequestHost) {i : ℕ} (hi : i < 2 ^ 32) :
    (h.infoAt i).atlasHeader.fragmentUid.toNat = i := by
  rw [infoAt_eq]
  exact UInt32.toNat_ofNat_of_lt' hi

/-- As `Distribute` fills it in, and as it stays: of the request's type, for a fragment. -/
def OfRequest (h : RequestHost) (info : SendMsgInfo) : Prop :=
  info.atlasHeader.type = h.nbqReq.nbdReq.reqType ∧ info.atlasHeader.len = fragSize

theorem ofRequest_distribute {h : RequestHost} {info : SendMsgInfo} (hinfo : info ∈ h.distribute) :
    h.OfRequest info := by
  rw [distribute_eq] at hinfo
  obtain ⟨j, -, rfl⟩ := List.mem_map.mp hinfo
  rw [infoAt_eq]
  exact ⟨rfl, rfl⟩

/-- A task sends every eighth fragment from its first on, each from its `infoAt`. -/
theorem sendLoop_eq (h : RequestHost) (fuel i : ℕ) (hfuel : h.count ≤ i + 8 * fuel)
    (hi : i < h.count + 8) :
    sendLoop h.dataLen fuel (UInt32.ofNat i) (h.infoAt i) =
      (List.range' i ((h.count - i + 7) / 8) 8).map h.infoAt := by
  have hcount := h.count_lt
  induction fuel generalizing i with
  | zero =>
    have hnone : (h.count - i + 7) / 8 = 0 := by omega
    rw [hnone]
    rfl
  | succ fuel ih =>
    rw [sendLoop]
    by_cases hlt : i < h.count
    · have htest : UInt32.ofNat i < fragments h.dataLen :=
        (lt_fragments h.dataLen (by omega)).mpr (by rwa [← count_eq])
      have hturns : (h.count - i + 7) / 8 = (h.count - (i + 8) + 7) / 8 + 1 := by omega
      rw [if_pos htest, ofNat_add_numOfIot, ← infoAt_advance, ih (i + 8) (by omega) (by omega), hturns,
        List.range'_succ, List.map_cons]
    · have htest : ¬UInt32.ofNat i < fragments h.dataLen := fun hcon =>
        hlt (by rw [count_eq]; exact (lt_fragments h.dataLen (by omega)).mp hcon)
      have hnone : (h.count - i + 7) / 8 = 0 := by omega
      rw [if_neg htest, hnone]
      rfl

end RequestHost
end PrivateCloud.Host
