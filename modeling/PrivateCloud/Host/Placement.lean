import PrivateCloud.Host.RequestHost

/-! Where a block of the device lives.

Block `f` belongs on node `f % 8`, at `f * 1024 / 8`. The source computes the place
in 32 bits and two ways: multiplying the block number by 1024 before it divides by 8,
for the first fragment of a task, and by adding 1024 for each further one. The product
wraps at block `2^22`, the sum does not, so up to there a block has one home
(`infoAt_home`) and beyond there it depends on where the request started; a device has
one home for each of its blocks exactly if it has at most `2^22` of them.

The division comes after the multiplication, so the eight blocks of a row do not share
one place on their nodes: each node's blocks start 128 bytes further than those of the
node before it, and a node's store ends that much above an eighth of the device
(`store_ends`). -/
namespace PrivateCloud.Host
open Nbd

namespace RequestHost

/-- A task of the request sends block `f` to this socket, for this place on the node. -/
def Sends (h : RequestHost) (f sockfd iotOffset : ℕ) : Prop :=
  ∃ info ∈ h.distribute, ∃ sent ∈ h.sendMsgWrapper info,
    f = h.firstBlock + sent.atlasHeader.fragmentUid.toNat ∧ sockfd = sent.sockfd ∧
      iotOffset = sent.atlasHeader.iotOffset.toNat

/-- Of whole blocks, and inside a device of `size` bytes. -/
structure Inside (size : ℕ) (h : RequestHost) : Prop where
  offset : h.nbqReq.nbdReq.offset.toNat % 1024 = 0
  dataLen : h.dataLen.toNat % 1024 = 0
  size : h.nbqReq.nbdReq.offset.toNat + h.dataLen.toNat ≤ size

theorem Inside.block_lt {size : ℕ} {h : RequestHost} (hin : h.Inside size) {i : ℕ} (hi : i < h.count) :
    h.firstBlock + i < size / 1024 := by
  have h1 := hin.offset
  have h2 := hin.dataLen
  have h3 := hin.size
  rw [count_eq] at hi
  simp only [firstBlock]
  omega

/-- The tasks together send every fragment, and from its `infoAt`. -/
theorem mem_sendMsgWrapper (h : RequestHost) (sent : SendMsgInfo) :
    (∃ info ∈ h.distribute, sent ∈ h.sendMsgWrapper info) ↔ ∃ i < h.count, sent = h.infoAt i := by
  have hcount := h.count_lt
  have htask (j : ℕ) (hj : j < min h.count 8) : h.sendMsgWrapper (h.infoAt j) =
      (List.range' j ((h.count - j + 7) / 8) 8).map h.infoAt := by
    have huid : (h.infoAt j).atlasHeader.fragmentUid = UInt32.ofNat j := by
      rw [infoAt_eq]
    rw [sendMsgWrapper, huid, show (fragments h.dataLen).toNat = h.count from rfl]
    exact sendLoop_eq h h.count j (by omega) (by omega)
  rw [distribute_eq]
  constructor
  · rintro ⟨info, hinfo, hsent⟩
    obtain ⟨j, hj, rfl⟩ := List.mem_map.mp hinfo
    rw [htask j (List.mem_range.mp hj)] at hsent
    obtain ⟨i, hi, rfl⟩ := List.mem_map.mp hsent
    obtain ⟨k, hk, rfl⟩ := List.mem_range'.mp hi
    exact ⟨j + 8 * k, by omega, rfl⟩
  · rintro ⟨i, hi, rfl⟩
    have hj : i % 8 < min h.count 8 := by omega
    refine ⟨h.infoAt (i % 8), List.mem_map.mpr ⟨i % 8, List.mem_range.mpr hj, rfl⟩, ?_⟩
    rw [htask (i % 8) hj]
    exact List.mem_map.mpr ⟨i, List.mem_range'.mpr ⟨i / 8, by omega, by omega⟩, rfl⟩

theorem sends_iff (h : RequestHost) (f sockfd iotOffset : ℕ) :
    h.Sends f sockfd iotOffset ↔ ∃ i < h.count, f = h.firstBlock + i ∧
      sockfd = (h.infoAt i).sockfd ∧ iotOffset = (h.infoAt i).atlasHeader.iotOffset.toNat := by
  have hcount := h.count_lt
  constructor
  · rintro ⟨info, hinfo, sent, hsent, rfl, rfl, rfl⟩
    obtain ⟨i, hi, rfl⟩ := (mem_sendMsgWrapper h sent).mp ⟨info, hinfo, hsent⟩
    exact ⟨i, hi, by rw [infoAt_fragmentUid h (by omega)], rfl, rfl⟩
  · rintro ⟨i, hi, rfl, rfl, rfl⟩
    obtain ⟨info, hinfo, hsent⟩ := (mem_sendMsgWrapper h (h.infoAt i)).mpr ⟨i, hi, rfl⟩
    exact ⟨info, hinfo, h.infoAt i, hsent, by rw [infoAt_fragmentUid h (by omega)], rfl, rfl⟩

/-- The block number as an `int`, below the wrap. -/
theorem toNat_block (h : RequestHost) {j : ℕ} (hblock : h.firstBlock + j < 2 ^ 32) :
    (h.firstFragIndx + Int32.ofNat j).toUInt32.toNat = h.firstBlock + j := by
  have hfirst : h.firstFragIndx.toUInt32.toNat = h.firstBlock := by
    show ((h.nbqReq.nbdReq.offset / fragSize.toUInt64).toUInt32).toNat = _
    rw [UInt64.toNat_toUInt32, UInt64.toNat_div]
    show h.firstBlock % 2 ^ 32 = _
    exact Nat.mod_eq_of_lt (by omega)
  have hj : (Int32.ofNat j).toUInt32.toNat = j := by
    show (UInt32.ofNat j).toNat = j
    exact UInt32.toNat_ofNat_of_lt' (show j < 2 ^ 32 by omega)
  rw [Int32.toUInt32_add, UInt32.toNat_add, hfirst, hj]
  exact Nat.mod_eq_of_lt hblock

/-- **The home of a block**, below the wrap: whatever request and whatever task. -/
theorem infoAt_home (h : RequestHost) {i : ℕ} (hblock : h.firstBlock + i < 2 ^ 22) :
    (h.infoAt i).sockfd = (h.firstBlock + i) % 8 + 1 ∧
      (h.infoAt i).atlasHeader.iotOffset.toNat = (h.firstBlock + i) * 128 := by
  have hmod : i % 8 < 8 := Nat.mod_lt _ (by decide)
  have hj := toNat_block h (j := i % 8) (by omega)
  rw [infoAt_eq]
  constructor
  · rw [UInt32.toNat_mod, hj]
    show (h.firstBlock + i % 8) % 8 + 1 = _
    omega
  · rw [UInt32.toNat_add, UInt32.toNat_div, UInt32.toNat_mul, UInt32.toNat_mul, hj,
      UInt32.toNat_ofNat_of_lt' (by omega : i / 8 < 2 ^ 32)]
    show ((h.firstBlock + i % 8) * 1024 % 2 ^ 32 / 8 + i / 8 * 1024 % 2 ^ 32) % 2 ^ 32 = _
    omega

end RequestHost

/-- On a device of `size` bytes a block has one home: every request that covers it
sends it, all of them to the same place, and different blocks to disjoint places. -/
structure OneHome (size : ℕ) : Prop where
  sent : ∀ h : RequestHost, h.Inside size → ∀ i < h.count,
    ∃ sockfd iotOffset, h.Sends (h.firstBlock + i) sockfd iotOffset
  same : ∀ h h' : RequestHost, h.Inside size → h'.Inside size → ∀ f sockfd sockfd' at_ at',
    h.Sends f sockfd at_ → h'.Sends f sockfd' at' → sockfd = sockfd' ∧ at_ = at'
  disjoint : ∀ h h' : RequestHost, h.Inside size → h'.Inside size → ∀ f f' sockfd at_ at',
    f ≠ f' → h.Sends f sockfd at_ → h'.Sends f' sockfd at' → at_ + 1024 ≤ at' ∨ at' + 1024 ≤ at_

/-- A READ of the one block at this offset. -/
def blockRequest (offset : UInt64) : RequestHost :=
  RequestHost.create 0 ⟨⟨NBD_CMD_READ, fragSize, offset, fun _ => 0⟩, ⟨0, 0, []⟩⟩

/-- The product wraps to the place of the device's first block. -/
theorem blockRequest_alias :
    (blockRequest 0).Sends 0 1 0 ∧ (blockRequest 0x100000000).Sends (2 ^ 22) 1 0 := by
  constructor <;> refine (RequestHost.sends_iff _ _ _ _).mpr ⟨0, by decide, ?_, ?_, ?_⟩ <;> decide

theorem blockRequest_inside {offset : UInt64} {size : ℕ} (halign : offset.toNat % 1024 = 0)
    (h : offset.toNat + 1024 ≤ size) : (blockRequest offset).Inside size :=
  ⟨halign, by rw [show (blockRequest offset).dataLen = fragSize from rfl]; decide, h⟩

/-- **Which devices give every block one home**: those of at most `2^22` blocks. -/
theorem one_home_iff (size : ℕ) : OneHome size ↔ size / 1024 ≤ 2 ^ 22 := by
  constructor
  · intro hone
    by_contra hbig
    obtain ⟨hzero, hwrap⟩ := blockRequest_alias
    have h1 : (0x100000000 : UInt64).toNat = 2 ^ 32 := rfl
    have hdis := hone.disjoint _ _ (blockRequest_inside (by decide) (by simp; omega))
      (blockRequest_inside (by decide) (by omega)) _ _ _ _ _ (by decide) hzero hwrap
    omega
  · intro hsmall
    have hhome (h : RequestHost) (hin : h.Inside size) {f sockfd at_ : ℕ} (hs : h.Sends f sockfd at_) :
        sockfd = f % 8 + 1 ∧ at_ = f * 128 := by
      obtain ⟨i, hi, rfl, rfl, rfl⟩ := (RequestHost.sends_iff h _ _ _).mp hs
      exact h.infoAt_home (lt_of_lt_of_le (hin.block_lt hi) hsmall)
    refine ⟨fun h _ i hi => ?_, fun h h' hin hin' f sockfd sockfd' at_ at' hs hs' => ?_,
      fun h h' hin hin' f f' sockfd at_ at' hne hs hs' => ?_⟩
    · exact ⟨_, _, (RequestHost.sends_iff h _ _ _).mpr ⟨i, hi, rfl, rfl, rfl⟩⟩
    · obtain ⟨rfl, rfl⟩ := hhome h hin hs
      obtain ⟨rfl, rfl⟩ := hhome h' hin' hs'
      exact ⟨rfl, rfl⟩
    · obtain ⟨hnode, rfl⟩ := hhome h hin hs
      obtain ⟨hnode', rfl⟩ := hhome h' hin' hs'
      -- Blocks of one node are eight apart.
      have hmod : f % 8 = f' % 8 := by omega
      omega

/-- On a device of 32 GiB the blocks `0` and `2^22` share their place. -/
theorem large_device_alias : ¬OneHome (32 * 2 ^ 30) := by
  intro hone
  obtain ⟨hzero, hwrap⟩ := blockRequest_alias
  have hdis := hone.disjoint _ _ (blockRequest_inside (by decide) (by decide))
    (blockRequest_inside (by decide) (by decide)) _ _ _ _ _ (by decide) hzero hwrap
  omega

/-! ### The space it takes -/

/-- A message of the request is about these bytes of the node's store. -/
def RequestHost.Covers (h : RequestHost) (f sockfd start stop : ℕ) : Prop :=
  ∃ info ∈ h.distribute, ∃ sent ∈ h.sendMsgWrapper info,
    f = h.firstBlock + sent.atlasHeader.fragmentUid.toNat ∧ sockfd = sent.sockfd ∧
      start = sent.atlasHeader.iotOffset.toNat ∧
        stop = sent.atlasHeader.iotOffset.toNat + sent.atlasHeader.len.toNat

/-- Eight stores of an eighth of the device hold all of it. -/
def Eighths (size : ℕ) : Prop :=
  ∀ h : RequestHost, h.Inside size → ∀ f sockfd start stop, h.Covers f sockfd start stop → stop ≤ size / 8

theorem RequestHost.covers_iff (h : RequestHost) (f sockfd start stop : ℕ) :
    h.Covers f sockfd start stop ↔ h.Sends f sockfd start ∧ stop = start + 1024 := by
  -- Every message is of one length.
  have hlen : ∀ info ∈ h.distribute, ∀ sent ∈ h.sendMsgWrapper info, sent.atlasHeader.len.toNat = 1024 := by
    intro info hinfo sent hsent
    obtain ⟨i, -, rfl⟩ := (mem_sendMsgWrapper h sent).mp ⟨info, hinfo, hsent⟩
    rw [infoAt_eq]
    rfl
  constructor
  · rintro ⟨info, hinfo, sent, hsent, hf, hsockfd, hstart, hstop⟩
    rw [hlen info hinfo sent hsent, ← hstart] at hstop
    exact ⟨⟨info, hinfo, sent, hsent, hf, hsockfd, hstart⟩, hstop⟩
  · rintro ⟨⟨info, hinfo, sent, hsent, hf, hsockfd, hstart⟩, hstop⟩
    refine ⟨info, hinfo, sent, hsent, hf, hsockfd, hstart, ?_⟩
    rw [hlen info hinfo sent hsent, ← hstart, hstop]

/-- Block `f` on a device of at most `2^22` blocks. -/
theorem RequestHost.covers_home {size : ℕ} (hsize : size ≤ 2 ^ 32) {h : RequestHost} (hin : h.Inside size)
    {f sockfd start stop : ℕ} (hc : h.Covers f sockfd start stop) :
    f < size / 1024 ∧ sockfd = f % 8 + 1 ∧ start = f * 128 ∧ stop = f * 128 + 1024 := by
  obtain ⟨hsends, rfl⟩ := (h.covers_iff f sockfd start stop).mp hc
  obtain ⟨i, hi, rfl, rfl, rfl⟩ := (h.sends_iff f sockfd start).mp hsends
  have hblock := hin.block_lt hi
  obtain ⟨hsockfd, hoffset⟩ := h.infoAt_home (i := i) (by omega)
  exact ⟨hblock, hsockfd, hoffset, by rw [hoffset]⟩

/-- The one block at an offset covers its place. -/
theorem blockRequest_covers {f : ℕ} (hf : f < 2 ^ 22) :
    (blockRequest (UInt64.ofNat (f * 1024))).Covers f (f % 8 + 1) (f * 128) (f * 128 + 1024) := by
  have hoffset : (UInt64.ofNat (f * 1024)).toNat = f * 1024 :=
    UInt64.toNat_ofNat_of_lt' (show f * 1024 < 2 ^ 64 by omega)
  have hblock : (blockRequest (UInt64.ofNat (f * 1024))).firstBlock = f := by
    show (UInt64.ofNat (f * 1024)).toNat / 1024 = f
    omega
  have hcount : 0 < (blockRequest (UInt64.ofNat (f * 1024))).count := by
    rw [RequestHost.count_eq, show (blockRequest (UInt64.ofNat (f * 1024))).dataLen = fragSize from rfl]
    decide
  obtain ⟨hsockfd, hplace⟩ := (blockRequest (UInt64.ofNat (f * 1024))).infoAt_home (i := 0) (by omega)
  rw [hblock, Nat.add_zero] at hsockfd hplace
  refine (RequestHost.covers_iff _ _ _ _ _).mpr
    ⟨(RequestHost.sends_iff _ _ _ _).mpr ⟨0, hcount, ?_, ?_, ?_⟩, rfl⟩
  · rw [hblock, Nat.add_zero]
  · exact hsockfd.symm
  · exact hplace.symm

/-- **Where the stores end.** The messages for node `j` lie between `128 * j` and
`size / 8 + 128 * j`, and reach the end; those inside an eighth of the device are the
ones of all but its last seven blocks. -/
theorem store_ends (size : ℕ) (hpos : 0 < size) (hwhole : size % 8192 = 0) (hsize : size ≤ 2 ^ 32) :
    (∀ h : RequestHost, h.Inside size → ∀ f sockfd start stop, h.Covers f sockfd start stop →
      ∃ j < 8, sockfd = j + 1 ∧ 128 * j ≤ start ∧ stop ≤ size / 8 + 128 * j ∧
        (stop ≤ size / 8 ↔ f + 7 < size / 1024)) ∧
    ∀ j < 8, ∃ h : RequestHost, h.Inside size ∧ ∃ f start,
      h.Covers f (j + 1) start (size / 8 + 128 * j) := by
  constructor
  · intro h hin f sockfd start stop hc
    obtain ⟨hblock, rfl, rfl, rfl⟩ := RequestHost.covers_home hsize hin hc
    exact ⟨f % 8, Nat.mod_lt _ (by decide), rfl, by omega, by omega, by omega⟩
  · intro j hj
    -- The last block of the node.
    have hlast : size / 8192 * 8 - 8 + j < 2 ^ 22 := by omega
    refine ⟨blockRequest (UInt64.ofNat ((size / 8192 * 8 - 8 + j) * 1024)), ?_, size / 8192 * 8 - 8 + j,
      (size / 8192 * 8 - 8 + j) * 128, ?_⟩
    · have hoffset : (UInt64.ofNat ((size / 8192 * 8 - 8 + j) * 1024)).toNat =
          (size / 8192 * 8 - 8 + j) * 1024 := UInt64.toNat_ofNat_of_lt' (show _ < 2 ^ 64 by omega)
      exact blockRequest_inside (by omega) (by omega)
    · have hcovers := blockRequest_covers hlast
      have hnode : (size / 8192 * 8 - 8 + j) % 8 = j := by omega
      have hend : (size / 8192 * 8 - 8 + j) * 128 + 1024 = size / 8 + 128 * j := by omega
      rw [hnode, hend] at hcovers
      exact hcovers

/-- The last node of the source's device. -/
theorem store_ends_source : ∃ h : RequestHost, h.Inside 0x10000000 ∧ ∃ f start,
    h.Covers f 8 start (0x10000000 / 8 + 128 * 7) :=
  (store_ends 0x10000000 (by decide) (by decide) (by decide)).2 7 (by decide)

/-- The last block of the source's device ends above its eighth. -/
theorem eighths_too_small : ¬Eighths 0x10000000 := by
  intro heighths
  have hinside : (blockRequest (UInt64.ofNat (0x3ffff * 1024))).Inside 0x10000000 :=
    blockRequest_inside (by decide) (by decide)
  have hstop := heighths _ hinside _ _ _ _ (blockRequest_covers (f := 0x3ffff) (by decide))
  omega

end PrivateCloud.Host
