import Mathlib.Data.Nat.Notation
import Mathlib.Tactic.Common

/-! A stream socket as its reader sees it.

`bytes` is what is still to be delivered and `cuts` how many bytes the coming
calls would each like to return: a call returns at least one byte while any is
left, at most what was asked for and at most the kernel's transfer limit, so every
sequence of short reads is one choice of `cuts`. `readLoop` is the usual loop that
calls until it has all its bytes; consuming, it is independent of the cuts
(`readLoop_take`), and peeking it is not, unless the first call returns everything
(`readLoop_peeked`, `readLoop_peek`). -/
namespace PrivateCloud

structure Socket where
  bytes : List UInt8
  cuts : ℕ → ℕ

namespace Socket

/-- A read transfers at most this much, whatever is asked for. -/
def maxTransfer : ℕ := 0x7ffff000

/-- How many bytes the next call returns; zero is the end of the stream. -/
def ready (s : Socket) (count : ℕ) : ℕ :=
  min (max 1 (s.cuts 0)) (min count (min s.bytes.length maxTransfer))

/-- One call; with `peek` the bytes stay on the stream. -/
def recv (peek : Bool) (count : ℕ) (s : Socket) : List UInt8 × Socket :=
  (s.bytes.take (s.ready count),
    ⟨if peek then s.bytes else s.bytes.drop (s.ready count), fun i => s.cuts (i + 1)⟩)

/-- Call until `count` bytes have been stored. The result of a call is an `int`
that must be positive, or the loop stops with `none`. Every call makes progress,
so `count` calls suffice. -/
def readLoop (peek : Bool) : (fuel count : ℕ) → Socket → Option (List UInt8 × Socket)
  | _, 0, s => some ([], s)
  | 0, _ + 1, _ => none
  | fuel + 1, count + 1, s =>
    let call := s.recv peek (count + 1)
    let bytesRead := Int32.ofNat call.1.length
    if 0 < bytesRead then
      (readLoop peek fuel (count + 1 - bytesRead.toNatClampNeg) call.2).map
        fun tail => (call.1 ++ tail.1, tail.2)
    else none

theorem ready_le (s : Socket) (count : ℕ) :
    s.ready count ≤ count ∧ s.ready count ≤ s.bytes.length ∧ s.ready count ≤ maxTransfer := by
  simp only [ready]
  omega

theorem ready_pos (s : Socket) {count : ℕ} (hc : 0 < count) (h : count ≤ s.bytes.length) :
    0 < s.ready count := by
  simp only [ready, maxTransfer]
  omega

/-- A transfer is short enough for its length to be a positive `int`. -/
theorem int_ready {n : ℕ} (hpos : 0 < n) (h : n ≤ maxTransfer) :
    0 < Int32.ofNat n ∧ (Int32.ofNat n).toNatClampNeg = n := by
  have hlt : n < 2 ^ 31 := by
    simp only [maxTransfer] at h
    omega
  refine ⟨?_, Int32.toNatClampNeg_ofNat_of_lt hlt⟩
  rw [Int32.lt_iff_toInt_lt, Int32.toInt_ofNat_of_lt hlt]
  simpa using hpos

/-- One turn of the loop, when there is something to read. -/
theorem readLoop_turn (peek : Bool) (fuel count : ℕ) (s : Socket) (h : count + 1 ≤ s.bytes.length) :
    readLoop peek (fuel + 1) (count + 1) s =
      (readLoop peek fuel (count + 1 - s.ready (count + 1)) (s.recv peek (count + 1)).2).map
        fun tail => (s.bytes.take (s.ready (count + 1)) ++ tail.1, tail.2) := by
  obtain ⟨-, hlen, hmax⟩ := s.ready_le (count + 1)
  obtain ⟨hpos, hnat⟩ := int_ready (s.ready_pos (Nat.succ_pos count) h) hmax
  have hcall : (s.recv peek (count + 1)).1.length = s.ready (count + 1) := by
    simp only [recv, List.length_take]
    omega
  simp only [readLoop]
  rw [hcall, if_pos hpos, hnat]
  rfl

/-- **Consuming reads do not see the cuts.** However the stream is cut, the loop
returns its first `count` bytes and leaves the rest. -/
theorem readLoop_take (fuel count : ℕ) (s : Socket) (hfuel : count ≤ fuel)
    (h : count ≤ s.bytes.length) :
    ∃ cuts, readLoop false fuel count s = some (s.bytes.take count, ⟨s.bytes.drop count, cuts⟩) := by
  induction fuel generalizing count s with
  | zero =>
    obtain rfl := Nat.le_zero.mp hfuel
    exact ⟨s.cuts, rfl⟩
  | succ fuel ih =>
    cases count with
    | zero => exact ⟨s.cuts, rfl⟩
    | succ count =>
      have hpos : 0 < s.ready (count + 1) := s.ready_pos (Nat.succ_pos count) h
      obtain ⟨hle, -, -⟩ := s.ready_le (count + 1)
      have hrest : count + 1 - s.ready (count + 1) ≤ (s.recv false (count + 1)).2.bytes.length := by
        simp only [recv, Bool.false_eq_true, if_false, List.length_drop]
        omega
      obtain ⟨cuts, hloop⟩ := ih (count + 1 - s.ready (count + 1)) (s.recv false (count + 1)).2
        (by omega) hrest
      refine ⟨cuts, ?_⟩
      rw [readLoop_turn false fuel count s h, hloop]
      simp only [recv, Bool.false_eq_true, if_false, Option.map_some, List.drop_drop, Option.some.injEq,
        Prod.mk.injEq, mk.injEq, and_true]
      refine ⟨?_, by congr 1; omega⟩
      rw [← List.take_add]
      congr 1
      omega

/-- A stream known by its front and its rest. -/
theorem readLoop_append (front rest : List UInt8) (cuts : ℕ → ℕ) {count : ℕ}
    (hcount : front.length = count) :
    ∃ cuts', readLoop false count count ⟨front ++ rest, cuts⟩ = some (front, ⟨rest, cuts'⟩) := by
  subst hcount
  obtain ⟨cuts', h⟩ := readLoop_take front.length front.length ⟨front ++ rest, cuts⟩
    (Nat.le_refl _) (by simp)
  refine ⟨cuts', ?_⟩
  rw [h, List.take_left, List.drop_left]

/-- A stream that ends too early stops the loop. -/
theorem readLoop_short (fuel count : ℕ) (s : Socket) (h : s.bytes.length < count) :
    readLoop false fuel count s = none := by
  induction fuel generalizing count s with
  | zero =>
    cases count with
    | zero => exact absurd h (Nat.not_lt_zero _)
    | succ count => rfl
  | succ fuel ih =>
    cases count with
    | zero => exact absurd h (Nat.not_lt_zero _)
    | succ count =>
      obtain ⟨-, hlen, hmax⟩ := s.ready_le (count + 1)
      have hcall : (s.recv false (count + 1)).1.length = s.ready (count + 1) := by
        simp only [recv, List.length_take]
        omega
      simp only [readLoop]
      rw [hcall]
      split
      case isTrue hpos =>
        have hnat : (Int32.ofNat (s.ready (count + 1))).toNatClampNeg = s.ready (count + 1) :=
          Int32.toNatClampNeg_ofNat_of_lt (by simp only [maxTransfer] at hmax; omega)
        rw [hnat, ih _ _ (by simp only [recv, Bool.false_eq_true, if_false, List.length_drop]; omega)]
        rfl
      case isFalse => rfl

/-- What a read came back with. -/
theorem readLoop_some {fuel count : ℕ} {s s' : Socket} {bytes : List UInt8} (hfuel : count ≤ fuel)
    (h : readLoop false fuel count s = some (bytes, s')) : bytes = s.bytes.take count := by
  rcases Nat.lt_or_ge s.bytes.length count with hshort | hlen
  · rw [readLoop_short fuel count s hshort] at h
    cases h
  · obtain ⟨cuts, hloop⟩ := readLoop_take fuel count s hfuel hlen
    rw [hloop] at h
    exact (Prod.mk.inj (Option.some.inj h)).1.symm

theorem readLoop_length {fuel count : ℕ} {s s' : Socket} {bytes : List UInt8} (hfuel : count ≤ fuel)
    (h : readLoop false fuel count s = some (bytes, s')) : bytes.length = count := by
  have hlen : count ≤ s.bytes.length := by
    by_contra hshort
    rw [readLoop_short fuel count s (by omega)] at h
    cases h
  rw [readLoop_some hfuel h, List.length_take, Nat.min_eq_left hlen]

/-- Peeking takes nothing off the stream. -/
theorem readLoop_peek_bytes (fuel count : ℕ) {s s' : Socket} {bytes : List UInt8}
    (h : readLoop true fuel count s = some (bytes, s')) : s'.bytes = s.bytes := by
  induction fuel generalizing count s bytes with
  | zero =>
    cases count with
    | zero =>
      obtain ⟨-, rfl⟩ := Prod.mk.inj (Option.some.inj h)
      rfl
    | succ count => cases h
  | succ fuel ih =>
    cases count with
    | zero =>
      obtain ⟨-, rfl⟩ := Prod.mk.inj (Option.some.inj h)
      rfl
    | succ count =>
      simp only [readLoop] at h
      split at h
      case isTrue =>
        obtain ⟨⟨tail, t⟩, htail, heq⟩ := Option.map_eq_some_iff.mp h
        obtain ⟨-, rfl⟩ := Prod.mk.inj heq
        have hsame : t.bytes = (s.recv true (count + 1)).2.bytes := ih _ htail
        exact hsame
      case isFalse => cases h

/-- What a peeking loop stores: each call begins again at the front of the stream. -/
def peeked (bytes : List UInt8) : (fuel count : ℕ) → (cuts : ℕ → ℕ) → List UInt8
  | _, 0, _ => []
  | 0, _ + 1, _ => []
  | fuel + 1, count + 1, cuts =>
    let n := min (max 1 (cuts 0)) (count + 1)
    bytes.take n ++ peeked bytes fuel (count + 1 - n) fun i => cuts (i + 1)

theorem peeked_length (bytes : List UInt8) (fuel count : ℕ) (cuts : ℕ → ℕ) (hfuel : count ≤ fuel)
    (h : count ≤ bytes.length) : (peeked bytes fuel count cuts).length = count := by
  induction fuel generalizing count cuts with
  | zero =>
    obtain rfl := Nat.le_zero.mp hfuel
    rfl
  | succ fuel ih =>
    cases count with
    | zero => rfl
    | succ count =>
      simp only [peeked, List.length_append, List.length_take]
      rw [ih _ _ (by omega) (by omega)]
      omega

/-- A peeking loop comes to its end, with the stream as it was. -/
theorem readLoop_peeked (fuel count : ℕ) (s : Socket) (hfuel : count ≤ fuel)
    (h : count ≤ s.bytes.length) (hmax : count ≤ maxTransfer) :
    ∃ cuts, readLoop true fuel count s = some (peeked s.bytes fuel count s.cuts, ⟨s.bytes, cuts⟩) := by
  induction fuel generalizing count s with
  | zero =>
    obtain rfl := Nat.le_zero.mp hfuel
    exact ⟨s.cuts, rfl⟩
  | succ fuel ih =>
    cases count with
    | zero => exact ⟨s.cuts, rfl⟩
    | succ count =>
      have hready : s.ready (count + 1) = min (max 1 (s.cuts 0)) (count + 1) := by
        simp only [ready]
        omega
      obtain ⟨cuts, hloop⟩ := ih (count + 1 - s.ready (count + 1)) (s.recv true (count + 1)).2
        (by omega) (by show _ ≤ s.bytes.length; omega) (by omega)
      refine ⟨cuts, ?_⟩
      rw [readLoop_turn true fuel count s h, hloop, hready]
      rfl

/-- A peek whose first call returns everything it asked for. -/
theorem readLoop_peek (fuel count : ℕ) (s : Socket) (hfuel : count ≤ fuel)
    (h : count ≤ s.bytes.length) (hmax : count ≤ maxTransfer) (hcut : count ≤ s.cuts 0) :
    ∃ cuts, readLoop true fuel count s = some (s.bytes.take count, ⟨s.bytes, cuts⟩) := by
  obtain ⟨cuts, hloop⟩ := readLoop_peeked fuel count s hfuel h hmax
  refine ⟨cuts, ?_⟩
  rw [hloop]
  cases count with
  | zero => cases fuel <;> rfl
  | succ count =>
    obtain ⟨fuel, rfl⟩ : ∃ f, fuel = f + 1 := ⟨fuel - 1, by omega⟩
    have hfirst : min (max 1 (s.cuts 0)) (count + 1) = count + 1 := by omega
    simp only [peeked, hfirst, Nat.sub_self]
    cases fuel <;> simp

end Socket
end PrivateCloud
