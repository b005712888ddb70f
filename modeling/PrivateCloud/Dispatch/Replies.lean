import PrivateCloud.Dispatch.Dispatcher

/-! Which reply headers the dispatcher survives.

A node's socket may deliver any header. `IotHandle` checks none of it: it trusts the
uid to be in the map, the fragment to be inside the buffer and the reply to be the
first for its fragment. `iotHandle_survives_iff` says what that comes to in a reachable
state: which headers are handled, either by consuming the reply of an outstanding
fragment or by changing nothing, and so which are not. -/
namespace PrivateCloud.Dispatch
open Nbd Host

/-- What happens to a dispatcher: a request arrives, or a node's socket has a reply,
whatever it holds and however it is cut. -/
inductive Event where
  | request (message : NbdMessage)
  | reply (s : Socket)

namespace Dispatcher

def handle (d : Dispatcher) : Event → Option Dispatcher
  | .request message => some (d.nbdRequestsHandle message)
  | .reply s =>
    match d.iotHandle s with
    | .error _ => none
    | .ok (d, _) => some d

def machine : Machine Dispatcher Event := ⟨init, handle⟩

/-- Every entry of the map is a request under its own uid, with outstanding fragments
unless it never had one; and outstanding fragments are the request's. -/
structure Sound (d : Dispatcher) : Prop where
  entry : ∀ u c, d.activeRequests u = some c → c < d.created ∧ (d.host c).reqUid = u
  fragments : ∀ c, c < d.created → (d.host c).fragmentationSet ⊆ Finset.range (d.host c).count
  outstanding : ∀ u c, d.activeRequests u = some c → (d.host c).fragmentationSet = ∅ →
    (d.host c).count = 0

/-! ### Reachable dispatchers -/

theorem sound_init : Sound init where
  entry := fun _ _ h => nomatch h
  fragments := fun c hc => absurd hc (Nat.not_lt_zero c)
  outstanding := fun _ _ h => nomatch h

theorem sound_request {d : Dispatcher} (h : Sound d) (message : NbdMessage) :
    Sound (d.nbdRequestsHandle message) := by
  have hold (c : ℕ) (hc : c < d.created) : Function.update d.host d.created
      (RequestHost.create d.reqUid message) c = d.host c :=
    Function.update_of_ne (Nat.ne_of_lt hc) _ _
  have hset := RequestHost.create_fragmentationSet d.reqUid message
  have hentry (u : UInt32) (c : ℕ) (hu : (d.nbdRequestsHandle message).activeRequests u = some c) :
      (u = d.reqUid ∧ c = d.created) ∨ d.activeRequests u = some c := by
    simp only [nbdRequestsHandle, Function.update_apply] at hu
    split at hu
    case isTrue he => exact Or.inl ⟨he, (Option.some.inj hu).symm⟩
    case isFalse => exact Or.inr hu
  refine ⟨fun u c hu => ?_, fun c hc => ?_, fun u c hu hempty => ?_⟩
  · rcases hentry u c hu with ⟨rfl, rfl⟩ | hu
    · refine ⟨Nat.lt_succ_self _, ?_⟩
      simp [nbdRequestsHandle, RequestHost.create]
    · obtain ⟨hc, huid⟩ := h.entry u c hu
      refine ⟨Nat.lt_succ_of_lt hc, ?_⟩
      simp only [nbdRequestsHandle, hold c hc]
      exact huid
  · rcases Nat.lt_succ_iff_lt_or_eq.mp hc with hc | rfl
    · simp only [nbdRequestsHandle, hold c hc]
      exact h.fragments c hc
    · simp only [nbdRequestsHandle, Function.update_self, hset]
      exact Finset.Subset.refl _
  · rcases hentry u c hu with ⟨rfl, rfl⟩ | hu
    · simp only [nbdRequestsHandle, Function.update_self, hset, Finset.range_eq_empty_iff] at hempty ⊢
      exact hempty
    · have hc := (h.entry u c hu).1
      simp only [nbdRequestsHandle, hold c hc] at hempty ⊢
      exact h.outstanding u c hu hempty

theorem sound_reply {d d' : Dispatcher} {s s' : Socket} (h : Sound d)
    (hd : d.iotHandle s = .ok (d', s')) : Sound d' := by
  obtain ⟨u, t, c, req, -, hc, huid, hlen, hset, rfl⟩ := iotHandle_cases hd
  obtain ⟨hcreated, hu⟩ := h.entry u c hc
  have hcount : req.count = (d.host c).count := by rw [RequestHost.count, RequestHost.count, hlen]
  -- The map has lost the entry or kept it, and kept every other.
  have hentry (v : UInt32) (b : ℕ) (hv : (if req.fragmentationSet = ∅ then
      Function.update d.activeRequests u none else d.activeRequests) v = some b) :
      d.activeRequests v = some b ∧ (b = c → req.fragmentationSet ≠ ∅) := by
    split at hv
    case isTrue =>
      rw [Function.update_apply] at hv
      split at hv
      case isTrue => cases hv
      case isFalse hne =>
        refine ⟨hv, fun hb => absurd ?_ hne⟩
        rw [← (h.entry v b hv).2, hb, hu]
    case isFalse hne => exact ⟨hv, fun _ => hne⟩
  refine ⟨fun v b hv => ?_, fun b hb => ?_, fun v b hv hempty => ?_⟩
  · obtain ⟨hold, -⟩ := hentry v b hv
    refine ⟨(h.entry v b hold).1, ?_⟩
    by_cases hbc : b = c
    · subst hbc
      simp only [Function.update_self, huid]
      exact (h.entry v b hold).2
    · simp only [Function.update_of_ne hbc]
      exact (h.entry v b hold).2
  · by_cases hbc : b = c
    · subst hbc
      simp only [Function.update_self, hset]
      rw [hcount]
      exact (Finset.erase_subset _ _).trans (h.fragments b hcreated)
    · simp only [Function.update_of_ne hbc]
      exact h.fragments b hb
  · obtain ⟨hold, hne⟩ := hentry v b hv
    by_cases hbc : b = c
    · subst hbc
      simp only [Function.update_self] at hempty
      exact absurd hempty (hne rfl)
    · simp only [Function.update_of_ne hbc] at hempty ⊢
      exact h.outstanding v b hold hempty

theorem run_sound {trace : List (Dispatcher × Event)} {d : Dispatcher}
    (run : machine.Run init trace d) : Sound d := by
  refine run.invariant (P := Sound) (r := fun _ _ => True) sound_init ?_ (fun _ _ => trivial)
  intro d e d' h _ hstep
  cases e with
  | request message =>
    obtain rfl := Option.some.inj hstep
    exact sound_request h message
  | reply s =>
    simp only [machine, handle] at hstep
    split at hstep
    case h_1 => cases hstep
    case h_2 u t hiot =>
      obtain rfl := Option.some.inj hstep
      exact sound_reply h hiot

/-! ### Survival -/

/-- The reply of an outstanding fragment, consumed: its slice of the buffer and its
place in the set change, the entry goes with the last fragment, and nothing else. -/
structure Consumes (d : Dispatcher) (header : AtlasHeader) (tail : List UInt8) (d' : Dispatcher)
    (c : ℕ) : Prop where
  active : d.activeRequests header.requestUid = some c
  outstanding : header.fragmentUid.toNat ∈ (d.host c).fragmentationSet
  crossed : (d'.host c).fragmentationSet = (d.host c).fragmentationSet.erase header.fragmentUid.toNat
  inside : header.fragmentUid.toNat * 1024 + 1024 ≤ (d.host c).dataLen.toNat
  received : (d.host c).nbqReq.nbdReq.reqType = NBD_CMD_READ →
    (d'.host c).nbqReq.nbdReq.dataBuf.read (header.fragmentUid.toNat * 1024) 1024 = tail.take 1024
  buffer : ∀ x, x < header.fragmentUid.toNat * 1024 ∨ header.fragmentUid.toNat * 1024 + 1024 ≤ x →
    (d'.host c).nbqReq.nbdReq.dataBuf x = (d.host c).nbqReq.nbdReq.dataBuf x
  hosts : ∀ b, b ≠ c → d'.host b = d.host b
  entries : ∀ u, u ≠ header.requestUid → d'.activeRequests u = d.activeRequests u
  entry : d'.activeRequests header.requestUid =
    if (d'.host c).fragmentationSet = ∅ then none else some c

/-- The map, every set and every buffer are as they were. -/
structure Unchanged (d d' : Dispatcher) : Prop where
  activeRequests : d'.activeRequests = d.activeRequests
  sets : ∀ c, (d'.host c).fragmentationSet = (d.host c).fragmentationSet
  buffers : ∀ c, (d'.host c).nbqReq.nbdReq.dataBuf = (d.host c).nbqReq.nbdReq.dataBuf

/-- A socket that delivers a header, whatever follows it and however it is cut. -/
def delivers (header : AtlasHeader) (tail : List UInt8) (cuts : ℕ → ℕ) : Socket :=
  ⟨header.store ++ tail, cuts⟩

/-- `IotHandle` comes back, from a reply consumed or from nothing done. -/
def Survives (d : Dispatcher) (header : AtlasHeader) (tail : List UInt8) (cuts : ℕ → ℕ) : Prop :=
  ∃ d' s', d.iotHandle (delivers header tail cuts) = .ok (d', s') ∧
    ((∃ c, Consumes d header tail d' c) ∨ Unchanged d d')

/-- What request `c`, looked up under `reqUid`, needs of a reply. Its data, for a READ,
are there to be received. The reply is the one of an outstanding fragment of the
request; or the request waits for others and the reply is without data, or with data
that fit the buffer and are in it already. -/
def Accepts (h : RequestHost) (reqUid : UInt32) (header : AtlasHeader) (tail : List UInt8) : Prop :=
  dataLength h ≤ tail.length ∧
    if header.fragmentUid.toNat ∈ h.fragmentationSet then reqUid = header.requestUid
    else h.fragmentationSet ≠ ∅ ∧ Fits h header ∧ (h.nbqReq.nbdReq.reqType = NBD_CMD_READ →
      h.nbqReq.nbdReq.dataBuf.read (header.fragmentUid * fragSize).toNat 1024 = tail.take 1024)

/-- What `IotHandle` needs of a reply: the uid that it peeks is that of an active
request, and the request accepts the reply. -/
def Expected (d : Dispatcher) (header : AtlasHeader) (tail : List UInt8) (cuts : ℕ → ℕ) : Prop :=
  ∃ reqUid s' c, RequestHost.peek (delivers header tail cuts) = .ok (reqUid, s') ∧
    d.activeRequests reqUid = some c ∧ Accepts (d.host c) reqUid header tail

/-- An outstanding fragment has its slice inside the buffer. -/
theorem fragment_inside {d : Dispatcher} (h : Sound d) {c : ℕ} (hc : c < d.created) {i : UInt32}
    (hi : i.toNat ∈ (d.host c).fragmentationSet) :
    (i * fragSize).toNat = i.toNat * 1024 ∧ i.toNat * 1024 + 1024 ≤ (d.host c).dataLen.toNat :=
  (d.host c).slice_inside (Finset.mem_range.mp (h.fragments c hc hi))

theorem dataLength_read {h : RequestHost} (hread : h.nbqReq.nbdReq.reqType = NBD_CMD_READ) :
    dataLength h = 1024 := if_pos hread

theorem dataLength_le (h : RequestHost) : dataLength h ≤ 1024 := by
  unfold dataLength
  split <;> omega

theorem consume_outstanding {d : Dispatcher} {header : AtlasHeader} {tail : List UInt8} {c : ℕ}
    (h : Sound d) (hc : d.activeRequests header.requestUid = some c)
    (hi : header.fragmentUid.toNat ∈ (d.host c).fragmentationSet)
    (hdata : dataLength (d.host c) ≤ tail.length) :
    Consumes d header tail
      (d.handleReply header.requestUid c header (tail.take (dataLength (d.host c)))) c := by
  obtain ⟨hstart, hinside⟩ := fragment_inside h (h.entry _ _ hc).1 hi
  have hle := dataLength_le (d.host c)
  have hhost := handleReply_host d header.requestUid c header (tail.take (dataLength (d.host c)))
  refine ⟨hc, hi, ?_, hinside, fun hread => ?_, fun x hx => ?_, fun b hb => ?_, fun u hu => ?_, ?_⟩
  · rw [hhost, Function.update_self]
    rfl
  · have hlen : (tail.take 1024).length = 1024 := by
      rw [dataLength_read hread] at hdata
      rw [List.length_take, Nat.min_eq_left hdata]
    have hsame := Memory.read_write_same (d.host c).nbqReq.nbdReq.dataBuf
      (header.fragmentUid.toNat * 1024) (tail.take 1024)
    rw [hhost, Function.update_self, dataLength_read hread]
    simp only [consume, hstart]
    rwa [hlen] at hsame
  · rw [hhost, Function.update_self]
    refine Memory.write_outside _ ?_
    rw [hstart, List.length_take]
    omega
  · rw [hhost, Function.update_of_ne hb]
  · simp only [handleReply]
    split
    · exact Function.update_of_ne hu _ _
    · rfl
  · rw [hhost, Function.update_self]
    simp only [handleReply]
    split
    · exact Function.update_self ..
    · exact hc

/-- Writing a block changes nothing exactly if the block is there already. -/
theorem write_eq_self {m : Memory} {a : ℕ} {data : List UInt8} :
    m.write a data = m ↔ m.read a data.length = data := by
  constructor
  · intro h
    rw [← h, Memory.read_write_same]
  · intro h
    rw [← h]
    funext x
    by_cases hx : a ≤ x ∧ x < a + data.length
    · rw [Memory.write_read_inside m m hx.1 hx.2]
      congr 1
      omega
    · exact Memory.write_read_outside m m (by omega)

/-- **What is left undisturbed**, of the replies that are handled: the sets and
buffers, exactly if the fragment is not outstanding, others are, and the data are no
news. -/
theorem handleReply_unchanged {d : Dispatcher} {reqUid : UInt32} {c : ℕ} (header : AtlasHeader)
    (data : List UInt8) (hc : d.activeRequests reqUid = some c) :
    Unchanged d (d.handleReply reqUid c header data) ↔
      header.fragmentUid.toNat ∉ (d.host c).fragmentationSet ∧ (d.host c).fragmentationSet ≠ ∅ ∧
      (d.host c).nbqReq.nbdReq.dataBuf.write (header.fragmentUid * fragSize).toNat data =
        (d.host c).nbqReq.nbdReq.dataBuf := by
  have hhost := handleReply_host d reqUid c header data
  constructor
  · intro h
    have hset := h.sets c
    have hbuf := h.buffers c
    rw [hhost, Function.update_self] at hset hbuf
    refine ⟨Finset.erase_eq_self.mp hset, fun hempty => ?_, hbuf⟩
    have hdone : (consume (d.host c) header data).fragmentationSet = ∅ := hset.trans hempty
    have hmap := h.activeRequests
    simp only [handleReply, if_pos hdone] at hmap
    have hnone := congrFun hmap reqUid
    rw [Function.update_self, hc] at hnone
    cases hnone
  · rintro ⟨hnew, hrest, hbuf⟩
    have hset : (consume (d.host c) header data).fragmentationSet = (d.host c).fragmentationSet :=
      Finset.erase_eq_of_notMem hnew
    refine ⟨?_, fun b => ?_, fun b => ?_⟩
    · simp only [handleReply, hset, if_neg hrest]
    · rw [hhost]
      by_cases hb : b = c
      · subst hb
        rw [Function.update_self, hset]
      · rw [Function.update_of_ne hb]
    · rw [hhost]
      by_cases hb : b = c
      · subst hb
        rw [Function.update_self]
        exact hbuf
      · rw [Function.update_of_ne hb]

/-- A reply is consumed only under the uid that its header has. -/
theorem consumes_uid {d : Dispatcher} {reqUid : UInt32} {b c : ℕ} {header : AtlasHeader}
    {tail data : List UInt8} (h : Sound d) (hc : d.activeRequests reqUid = some c)
    (hcon : Consumes d header tail (d.handleReply reqUid c header data) b) :
    b = c ∧ reqUid = header.requestUid := by
  by_cases hb : b = c
  · subst hb
    exact ⟨rfl, (h.entry _ _ hc).2.symm.trans (h.entry _ _ hcon.active).2⟩
  · have hcrossed := hcon.crossed
    rw [handleReply_host, Function.update_of_ne hb] at hcrossed
    exact absurd hcon.outstanding (Finset.erase_eq_self.mp hcrossed.symm)

/-- The data a reply brings are in the buffer already; a WRITE's reply brings none. -/
theorem write_data_eq_self (h : RequestHost) (start : ℕ) {tail : List UInt8}
    (hdata : dataLength h ≤ tail.length) :
    h.nbqReq.nbdReq.dataBuf.write start (tail.take (dataLength h)) = h.nbqReq.nbdReq.dataBuf ↔
      (h.nbqReq.nbdReq.reqType = NBD_CMD_READ →
        h.nbqReq.nbdReq.dataBuf.read start 1024 = tail.take 1024) := by
  by_cases hread : h.nbqReq.nbdReq.reqType = NBD_CMD_READ
  · rw [dataLength_read hread] at hdata ⊢
    rw [write_eq_self, List.length_take, Nat.min_eq_left hdata]
    exact ⟨fun heq _ => heq, fun heq => heq hread⟩
  · have hnone : dataLength h = 0 := if_neg hread
    rw [hnone, List.take_zero, write_nil]
    exact ⟨fun _ hr => absurd hr hread, fun _ => rfl⟩

/-- A READ's reply whose data never come stops the reader. -/
theorem readReaply_short {h : RequestHost} {header : AtlasHeader} {tail : List UInt8}
    (cuts : ℕ → ℕ) (hshort : tail.length < dataLength h) :
    h.readReaply ⟨header.store ++ tail, cuts⟩ = .error .bytesRead := by
  have hread : h.nbqReq.nbdReq.reqType = NBD_CMD_READ := by
    by_contra hne
    rw [dataLength, if_neg hne] at hshort
    exact absurd hshort (Nat.not_lt_zero _)
  rw [dataLength_read hread] at hshort
  obtain ⟨cuts', hheader⟩ := Socket.readLoop_append header.store tail cuts header.store_length
  have hnone : RequestHost.recvAll false fragSize.toNat ⟨tail, cuts'⟩ = none :=
    Socket.readLoop_short _ _ _ hshort
  rw [RequestHost.readReaply, RequestHost.recvAll, hheader]
  simp only [RequestHost.receiveData, if_pos hread, hnone]

/-- A reply on the socket with all its data. -/
theorem iotHandle_whole {d : Dispatcher} {header : AtlasHeader} {tail : List UInt8} {s : Socket}
    {cuts : ℕ → ℕ} {reqUid : UInt32} {c : ℕ}
    (hpeek : RequestHost.peek s = .ok (reqUid, ⟨header.store ++ tail, cuts⟩))
    (hc : d.activeRequests reqUid = some c) (hdata : dataLength (d.host c) ≤ tail.length) :
    ∃ cuts', d.iotHandle s =
      if Fits (d.host c) header then
        .ok (d.handleReply reqUid c header (tail.take (dataLength (d.host c))),
          ⟨tail.drop (dataLength (d.host c)), cuts'⟩)
      else .error .overrun := by
  rw [← List.take_append_drop (dataLength (d.host c)) tail] at hpeek
  exact iotHandle_peeked hpeek hc (by rw [List.length_take, Nat.min_eq_left hdata])

/-- A handled reply is consumed or disturbs nothing, exactly if it was accepted. -/
theorem handleReply_accepts {d : Dispatcher} {reqUid : UInt32} {c : ℕ} {header : AtlasHeader}
    {tail : List UInt8} (h : Sound d) (hc : d.activeRequests reqUid = some c)
    (hdata : dataLength (d.host c) ≤ tail.length) (hfits : Fits (d.host c) header) :
    ((∃ b, Consumes d header tail
        (d.handleReply reqUid c header (tail.take (dataLength (d.host c)))) b) ∨
      Unchanged d (d.handleReply reqUid c header (tail.take (dataLength (d.host c))))) ↔
      Accepts (d.host c) reqUid header tail := by
  have hunchanged := handleReply_unchanged header (tail.take (dataLength (d.host c))) hc
  rw [write_data_eq_self (d.host c) _ hdata] at hunchanged
  by_cases hi : header.fragmentUid.toNat ∈ (d.host c).fragmentationSet
  · -- Outstanding: consumed, if the header's own request is the one that was looked up.
    simp only [Accepts, hdata, if_pos hi, true_and]
    constructor
    · rintro (⟨b, hcon⟩ | hsame)
      · exact (consumes_uid h hc hcon).2
      · exact absurd hi (hunchanged.mp hsame).1
    · rintro rfl
      exact Or.inl ⟨c, consume_outstanding h hc hi hdata⟩
  · -- Not outstanding: survived only by changing nothing.
    simp only [Accepts, hdata, if_neg hi, hfits, true_and]
    constructor
    · rintro (⟨b, hcon⟩ | hsame)
      · obtain ⟨rfl, -⟩ := consumes_uid h hc hcon
        exact absurd hcon.outstanding hi
      · exact (hunchanged.mp hsame).2
    · exact fun hrest => Or.inr (hunchanged.mpr ⟨hi, hrest⟩)

/-- What is accepted has room in the buffer. -/
theorem accepts_fits {d : Dispatcher} {reqUid : UInt32} {c : ℕ} {header : AtlasHeader}
    {tail : List UInt8} (h : Sound d) (hc : d.activeRequests reqUid = some c)
    (hacc : Accepts (d.host c) reqUid header tail) : Fits (d.host c) header := by
  obtain ⟨-, hacc⟩ := hacc
  split at hacc
  case isTrue hi =>
    obtain ⟨hstart, hinside⟩ := fragment_inside h (h.entry _ _ hc).1 hi
    intro _
    rwa [hstart]
  case isFalse => exact hacc.2.1

/-- **Which replies are survivable.** In every reachable state, whatever header a
socket delivers, whatever follows it and however it is cut: `IotHandle` consumes the
reply of an outstanding fragment or changes nothing, exactly if the reply is one that
it expects. -/
theorem iotHandle_survives_iff {trace : List (Dispatcher × Event)} {d : Dispatcher}
    (run : machine.Run init trace d) (header : AtlasHeader) (tail : List UInt8) (cuts : ℕ → ℕ) :
    Survives d header tail cuts ↔ Expected d header tail cuts := by
  have h := run_sound run
  constructor
  · rintro ⟨d', s', hiot, hcon⟩
    cases hpeek : RequestHost.peek (delivers header tail cuts) with
    | error fault =>
      simp only [iotHandle, hpeek] at hiot
      cases hiot
    | ok p =>
      obtain ⟨reqUid, bytes, cuts₁⟩ := p
      obtain rfl : bytes = header.store ++ tail := peek_bytes hpeek
      cases hc : d.activeRequests reqUid with
      | none =>
        rw [iotHandle_unknown hpeek hc] at hiot
        cases hiot
      | some c =>
        refine ⟨reqUid, _, c, hpeek, hc, ?_⟩
        rcases Nat.lt_or_ge tail.length (dataLength (d.host c)) with hshort | hdata
        · simp only [iotHandle, hpeek, hc, readReaply_short cuts₁ hshort] at hiot
          cases hiot
        · obtain ⟨cuts', hhandled⟩ := iotHandle_whole hpeek hc hdata
          rw [hhandled] at hiot
          split at hiot
          case isTrue hfits =>
            obtain ⟨rfl, -⟩ := Prod.mk.inj (Except.ok.inj hiot)
            exact (handleReply_accepts h hc hdata hfits).mp hcon
          case isFalse => cases hiot
  · rintro ⟨reqUid, ⟨bytes, cuts₁⟩, c, hpeek, hc, hacc⟩
    obtain rfl : bytes = header.store ++ tail := peek_bytes hpeek
    have hfits := accepts_fits h hc hacc
    obtain ⟨cuts', hhandled⟩ := iotHandle_whole hpeek hc hacc.1
    rw [if_pos hfits] at hhandled
    exact ⟨_, _, hhandled, (handleReply_accepts h hc hacc.1 hfits).mpr hacc⟩

/-- After a READ of one fragment. -/
def oneRead : Dispatcher := init.nbdRequestsHandle ⟨⟨NBD_CMD_READ, 1024, 0, fun _ => 0⟩, ⟨0, 0, []⟩⟩

theorem run_oneRead : machine.Run init [(init, .request ⟨⟨NBD_CMD_READ, 1024, 0, fun _ => 0⟩, ⟨0, 0, []⟩⟩)]
    oneRead :=
  Machine.Run.nil.snoc rfl

/-- Its reply. -/
theorem survives_oneRead :
    Survives oneRead ⟨0, 0, 0, 0, NBD_CMD_READ, 1024⟩ (List.replicate 1024 1) fun _ => 24 := by
  obtain ⟨cuts', hpeek⟩ := peek_store ⟨0, 0, 0, 0, NBD_CMD_READ, 1024⟩ (List.replicate 1024 1)
    (fun _ => 24) (by decide)
  refine (iotHandle_survives_iff run_oneRead _ _ _).mpr ⟨0, _, 0, hpeek, rfl, ?_, ?_⟩
  · rw [List.length_replicate]
    decide
  · rw [if_pos (by decide)]

/-- A reply to a request there never was, and one for a fragment that this request does
not have: a call through the null entry, and data past the end of the buffer. -/
theorem stray_replies : (∃ trace, machine.Run init trace oneRead) ∧
    oneRead.iotHandle (delivers ⟨7, 0, 0, 0, NBD_CMD_READ, 1024⟩ (List.replicate 1024 1) fun _ => 24) =
      .error .nullRequest ∧
    oneRead.iotHandle (delivers ⟨0, 1, 0, 0, NBD_CMD_READ, 1024⟩ (List.replicate 1024 1) fun _ => 24) =
      .error .overrun ∧
    ¬Survives oneRead ⟨7, 0, 0, 0, NBD_CMD_READ, 1024⟩ (List.replicate 1024 1) (fun _ => 24) ∧
    ¬Survives oneRead ⟨0, 1, 0, 0, NBD_CMD_READ, 1024⟩ (List.replicate 1024 1) (fun _ => 24) := by
  obtain ⟨cuts', hpeek⟩ := peek_store ⟨7, 0, 0, 0, NBD_CMD_READ, 1024⟩ (List.replicate 1024 1)
    (fun _ => 24) (by decide)
  have hnull := iotHandle_unknown (d := oneRead) hpeek (by decide)
  obtain ⟨cuts', hover⟩ := iotHandle_store oneRead ⟨0, 1, 0, 0, NBD_CMD_READ, 1024⟩
    (List.replicate 1024 1) [] (fun _ => 24) (by decide) (c := 0) rfl List.length_replicate
  rw [if_neg (by decide), List.append_nil] at hover
  refine ⟨⟨_, run_oneRead⟩, hnull, hover, ?_, ?_⟩
  · rintro ⟨d', s', hiot, -⟩
    cases hnull.symm.trans hiot
  · rintro ⟨d', s', hiot, -⟩
    cases hover.symm.trans hiot

end Dispatcher
end PrivateCloud.Dispatch
