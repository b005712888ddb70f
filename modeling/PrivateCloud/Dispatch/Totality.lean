import PrivateCloud.Dispatch.Replies
import PrivateCloud.Host.Placement

/-! Which requests their fragments cover.

The number of fragments is a truncating division, and nobody looks at the remainder. A
request that is not of whole fragments has bytes at its end that are in no fragment, and
is acknowledged without them; one of less than a fragment has none, enters the map with
nothing to wait for and is never answered. `fragmentation_total_iff` says for each of
the three which lengths are spared, whatever replies come. -/
namespace PrivateCloud.Dispatch.Dispatcher
open Nbd Host

/-- Byte `x` of the buffer is in fragment `i`. -/
def Covers (i x : ℕ) : Prop := i * 1024 ≤ x ∧ x < i * 1024 + 1024

theorem covers_iff {i x : ℕ} : Covers i x ↔ i = x / 1024 := by
  unfold Covers
  omega

/-- The request is cut, handed to the pool and, if there is nothing to hand, answered. -/
structure Total (d : Dispatcher) (message : NbdMessage) : Prop where
  recorded : ∀ x < message.nbdReq.dataLen.toNat,
    ∃ i ∈ (RequestHost.create d.reqUid message).fragmentationSet, Covers i x
  handed : ∀ x < message.nbdReq.dataLen.toNat,
    ∃ info ∈ (RequestHost.create d.reqUid message).distribute,
      ∃ sent ∈ (RequestHost.create d.reqUid message).sendMsgWrapper info,
        Covers sent.atlasHeader.fragmentUid.toNat x
  answered : (RequestHost.create d.reqUid message).distribute = [] →
    ∃ bytes, (d.nbdRequestsHandle message).completed = d.completed ++ [(d.created, bytes)]

theorem count_create (reqUid : UInt32) (message : NbdMessage) :
    (RequestHost.create reqUid message).count = message.nbdReq.dataLen.toNat / 1024 :=
  RequestHost.count_eq _

theorem total_iff (d : Dispatcher) (message : NbdMessage) : Total d message ↔
    0 < message.nbdReq.dataLen.toNat ∧ message.nbdReq.dataLen.toNat % 1024 = 0 := by
  have hcount := count_create d.reqUid message
  have hset := RequestHost.create_fragmentationSet d.reqUid message
  rw [RequestHost.toNat_fragments] at hset
  constructor
  · intro h
    have hpos : 0 < message.nbdReq.dataLen.toNat := by
      refine Nat.pos_of_ne_zero fun hzero => ?_
      have hnone : (RequestHost.create d.reqUid message).distribute = [] := by
        rw [RequestHost.distribute_eq, hcount, hzero]
        rfl
      obtain ⟨bytes, hbytes⟩ := h.answered hnone
      have hlen := congrArg List.length hbytes
      rw [List.length_append] at hlen
      exact Nat.ne_of_lt (Nat.lt_succ_self _) hlen
    -- The last byte is in a fragment only if it is the fragment's last.
    obtain ⟨i, hi, hx⟩ := h.recorded (message.nbdReq.dataLen.toNat - 1) (by omega)
    rw [hset, Finset.mem_range] at hi
    unfold Covers at hx
    omega
  · rintro ⟨hpos, hwhole⟩
    refine ⟨fun x hx => ⟨x / 1024, ?_, covers_iff.mpr rfl⟩, fun x hx => ?_, fun hnone => ?_⟩
    · rw [hset, Finset.mem_range]
      omega
    · have hlt : x / 1024 < (RequestHost.create d.reqUid message).count := by omega
      obtain ⟨info, hinfo, hsent⟩ :=
        (RequestHost.mem_sendMsgWrapper _ _).mpr ⟨x / 1024, hlt, rfl⟩
      have hbound := (RequestHost.create d.reqUid message).count_lt
      refine ⟨info, hinfo, _, hsent, covers_iff.mpr ?_⟩
      exact RequestHost.infoAt_fragmentUid _ (by omega)
    · rw [RequestHost.distribute_eq, List.map_eq_nil_iff, List.range_eq_nil] at hnone
      omega

/-! ### Acknowledged, and transferred -/

/-- The event is a reply from which request `c` takes a fragment it waits for. -/
def Receives (d : Dispatcher) (e : Event) (c i : ℕ) : Prop :=
  i ∈ (d.host c).fragmentationSet ∧ ∃ s u t, e = .reply s ∧ RequestHost.peek s = .ok (u, t) ∧
    d.activeRequests u = some c ∧ (front s.bytes).fragmentUid.toNat = i

/-- Byte `x` of request `c` has been to the nodes and back: a fragment that it is in has
had its reply. -/
def Transferred (trace : List (Dispatcher × Event)) (c x : ℕ) : Prop :=
  ∃ e ∈ trace, ∃ i, Covers i x ∧ Receives e.1 e.2 c i

/-- What the sets say about the past. -/
structure Recorded (trace : List (Dispatcher × Event)) (d : Dispatcher) : Prop where
  freed : ∀ c, d.freed c = true → c < d.created ∧ (d.host c).fragmentationSet = ∅
  received : ∀ c < d.created, ∀ i < (d.host c).count, i ∉ (d.host c).fragmentationSet →
    ∃ e ∈ trace, Receives e.1 e.2 c i
  only : ∀ e ∈ trace, ∀ c i, Receives e.1 e.2 c i → c < d.created ∧ i < (d.host c).count

theorem recorded_request {trace : List (Dispatcher × Event)} {d : Dispatcher} (h : Recorded trace d)
    (message : NbdMessage) :
    Recorded (trace ++ [(d, .request message)]) (d.nbdRequestsHandle message) := by
  have hold {c : ℕ} (hc : c < d.created) : (d.nbdRequestsHandle message).host c = d.host c :=
    Function.update_of_ne (Nat.ne_of_lt hc) _ _
  have hnew : (d.nbdRequestsHandle message).host d.created = RequestHost.create d.reqUid message :=
    Function.update_self ..
  have hcreated : (d.nbdRequestsHandle message).created = d.created + 1 := rfl
  refine ⟨fun c hc => ?_, fun c hc i hi hset => ?_, fun e he c i hrec => ?_⟩
  · obtain ⟨hlt, hempty⟩ := h.freed c hc
    exact ⟨Nat.lt_succ_of_lt hlt, by rw [hold hlt, hempty]⟩
  · rcases Nat.lt_succ_iff_lt_or_eq.mp (hcreated ▸ hc) with hc | rfl
    · rw [hold hc] at hi hset
      obtain ⟨e, he, hrec⟩ := h.received c hc i hi hset
      exact ⟨e, List.mem_append_left _ he, hrec⟩
    · rw [hnew, RequestHost.create_fragmentationSet, Finset.mem_range] at hset
      rw [hnew] at hi
      exact absurd hi hset
  · rcases List.mem_append.mp he with he | he
    · obtain ⟨hc, hi⟩ := h.only e he c i hrec
      exact ⟨Nat.lt_succ_of_lt hc, by rwa [hold hc]⟩
    · obtain rfl := List.mem_singleton.mp he
      obtain ⟨-, s, u, t, hreq, -⟩ := hrec
      cases hreq

theorem recorded_reply {trace : List (Dispatcher × Event)} {d d' : Dispatcher} {s s' : Socket}
    (h : Recorded trace d) (hsound : Sound d) (hd : d.iotHandle s = .ok (d', s')) :
    Recorded (trace ++ [(d, .reply s)]) d' := by
  obtain ⟨u, t, c, req, hpeek, hc, -, hlen, hset, rfl⟩ := iotHandle_cases hd
  have hcreated := (hsound.entry u c hc).1
  have hcount : req.count = (d.host c).count := by rw [RequestHost.count, RequestHost.count, hlen]
  have hcounts (b : ℕ) : (Function.update d.host c req b).count = (d.host b).count := by
    rw [Function.update_apply]
    split
    case isTrue hb => rw [hb, hcount]
    case isFalse => rfl
  refine ⟨fun b hb => ?_, fun b hb i hi hnot => ?_, fun e he b i hrec => ?_⟩
  · dsimp only
    rcases (freed_iff rfl b).mp hb with hb | ⟨rfl, hempty⟩
    · obtain ⟨hlt, hempty⟩ := h.freed b hb
      refine ⟨hlt, ?_⟩
      by_cases hbc : b = c
      · subst hbc
        rw [Function.update_self, hset, hempty]
        rfl
      · rw [Function.update_of_ne hbc, hempty]
    · exact ⟨hcreated, by rw [Function.update_self, hempty]⟩
  · dsimp only at hb hi hnot
    rw [hcounts] at hi
    by_cases hold : i ∈ (d.host b).fragmentationSet
    · -- Crossed off just now.
      have hbc : b = c := by
        by_contra hne
        rw [Function.update_of_ne hne] at hnot
        exact hnot hold
      subst hbc
      rw [Function.update_self, hset, Finset.mem_erase, not_and_or] at hnot
      have hi' : i = (front s.bytes).fragmentUid.toNat :=
        Decidable.not_not.mp (hnot.resolve_right (not_not.mpr hold))
      exact ⟨_, List.mem_append_right _ (List.mem_singleton_self _), hold, s, u, t, rfl, hpeek, hc,
        hi'.symm⟩
    · obtain ⟨e, he, hrec⟩ := h.received b hb i hi hold
      exact ⟨e, List.mem_append_left _ he, hrec⟩
  · dsimp only
    rw [hcounts]
    rcases List.mem_append.mp he with he | he
    · exact h.only e he b i hrec
    · obtain rfl := List.mem_singleton.mp he
      obtain ⟨hmem, s, v, t, -, -, hb, -⟩ := hrec
      have hlt := (hsound.entry v b hb).1
      exact ⟨hlt, Finset.mem_range.mp (hsound.fragments b hlt hmem)⟩

theorem run_recorded {trace : List (Dispatcher × Event)} {d : Dispatcher}
    (run : machine.Run init trace d) : Recorded trace d := by
  induction run with
  | nil =>
    exact ⟨fun _ hc => (nomatch hc), fun c hc => absurd hc (Nat.not_lt_zero c), fun _ he => (nomatch he)⟩
  | @snoc d d' trace e run hstep ih =>
    cases e with
    | request message =>
      obtain rfl := Option.some.inj hstep
      exact recorded_request ih message
    | reply s =>
      simp only [machine, handle] at hstep
      split at hstep
      case h_1 => cases hstep
      case h_2 u t hiot =>
        obtain rfl := Option.some.inj hstep
        exact recorded_reply ih (run_sound run) hiot

/-- An acknowledged request was transferred as far as its whole fragments go. -/
theorem transferred_iff {trace : List (Dispatcher × Event)} {d : Dispatcher}
    (h : Recorded trace d) {c : ℕ} (hfreed : d.freed c = true) :
    (∀ x < (d.host c).dataLen.toNat, Transferred trace c x) ↔ (d.host c).dataLen.toNat % 1024 = 0 := by
  have hcount := (d.host c).count_eq
  obtain ⟨hc, hempty⟩ := h.freed c hfreed
  constructor
  · intro hall
    rcases Nat.eq_zero_or_pos (d.host c).dataLen.toNat with hzero | hpos
    · rw [hzero]
    · obtain ⟨e, he, i, hx, hrec⟩ := hall ((d.host c).dataLen.toNat - 1) (by omega)
      have hi := (h.only e he c i hrec).2
      unfold Covers at hx
      omega
  · intro hwhole x hx
    obtain ⟨e, he, hrec⟩ := h.received c hc (x / 1024) (by omega) (by simp [hempty])
    exact ⟨e, he, x / 1024, covers_iff.mpr rfl, hrec⟩

/-- **Fragmentation is total for whole fragments only.** In every run, whatever replies
come: the next request is cut, handed over and answered if need be exactly if it is of
whole fragments and not empty; an active one has something to wait for exactly if it has
a fragment's length; and an acknowledged one was transferred to its last byte exactly if
it is of whole fragments. -/
theorem fragmentation_total_iff {trace : List (Dispatcher × Event)} {d : Dispatcher}
    (run : machine.Run init trace d) :
    (∀ message, Total d message ↔
      0 < message.nbdReq.dataLen.toNat ∧ message.nbdReq.dataLen.toNat % 1024 = 0) ∧
    (∀ u c, d.activeRequests u = some c →
      ((d.host c).fragmentationSet ≠ ∅ ↔ 1024 ≤ (d.host c).dataLen.toNat)) ∧
    ∀ c, d.freed c = true →
      ((∀ x < (d.host c).dataLen.toNat, Transferred trace c x) ↔
        (d.host c).dataLen.toNat % 1024 = 0) := by
  refine ⟨total_iff d, fun u c hc => ?_, fun c hc => transferred_iff (run_recorded run) hc⟩
  have h := run_sound run
  have hcount := (d.host c).count_eq
  constructor
  · intro hne
    obtain ⟨i, hi⟩ := Finset.nonempty_iff_ne_empty.mpr hne
    have := Finset.mem_range.mp (h.fragments c (h.entry u c hc).1 hi)
    omega
  · intro hlen hempty
    have := h.outstanding u c hc hempty
    omega

/-- A WRITE of `dataLen` bytes and the reply to its first fragment. -/
def writeAnswered (dataLen : UInt32) : List Event :=
  [.request ⟨⟨NBD_CMD_WRITE, dataLen, 0, fun _ => 7⟩, ⟨0, 0, []⟩⟩,
    .reply (delivers ⟨0, 0, 0, 0, NBD_CMD_WRITE, 1024⟩ [] fun _ => 24)]

/-- One whole fragment: acknowledged, and transferred. -/
theorem total_write : ∃ trace d, machine.Run init trace d ∧ d.freed 0 = true ∧
    Total d ⟨⟨NBD_CMD_WRITE, 1024, 0, fun _ => 7⟩, ⟨0, 0, []⟩⟩ ∧
    ∀ x < (d.host 0).dataLen.toNat, Transferred trace 0 x := by
  obtain ⟨trace, d, run, h⟩ := Machine.run_of_replay machine init (writeAnswered 1024)
    (fun e => decide (e.2.freed 0 = true ∧ (e.2.host 0).dataLen.toNat % 1024 = 0)) (by decide +kernel)
  obtain ⟨hfreed, hwhole⟩ := of_decide_eq_true h
  obtain ⟨htotal, -, hdone⟩ := fragmentation_total_iff run
  exact ⟨trace, d, run, hfreed, (htotal _).mpr (by decide), (hdone 0 hfreed).mpr hwhole⟩

/-- A disconnect, which is empty, is entered and waits for nothing; a WRITE of 1500 bytes
is acknowledged when the first 1024 were transferred. -/
theorem remainder_forgotten :
    (∃ trace d, machine.Run init trace d ∧ d.activeRequests 0 = some 0 ∧
      (d.host 0).fragmentationSet = ∅) ∧
    ∃ trace d, machine.Run init trace d ∧ d.freed 0 = true ∧
      (d.host 0).nbqReq.nbdReq.reqType = NBD_CMD_WRITE ∧
      ¬∀ x < (d.host 0).dataLen.toNat, Transferred trace 0 x := by
  constructor
  · obtain ⟨trace, d, run, h⟩ := Machine.run_of_replay machine init
      [.request ⟨⟨2, 0, 0, fun _ => 0⟩, ⟨0, 0, []⟩⟩]
      (fun e => decide (e.2.activeRequests 0 = some 0 ∧ (e.2.host 0).fragmentationSet = ∅))
      (by decide +kernel)
    exact ⟨trace, d, run, of_decide_eq_true h⟩
  · obtain ⟨trace, d, run, h⟩ := Machine.run_of_replay machine init (writeAnswered 1500)
      (fun e => decide (e.2.freed 0 = true ∧ (e.2.host 0).nbqReq.nbdReq.reqType = NBD_CMD_WRITE ∧
        (e.2.host 0).dataLen.toNat % 1024 ≠ 0)) (by decide +kernel)
    obtain ⟨hfreed, htype, hpart⟩ := of_decide_eq_true h
    exact ⟨trace, d, run, hfreed, htype,
      fun hall => hpart ((transferred_iff (run_recorded run) hfreed).mp hall)⟩

end PrivateCloud.Dispatch.Dispatcher
