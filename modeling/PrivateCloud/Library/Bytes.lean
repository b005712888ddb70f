import Mathlib.Algebra.Order.Ring.Nat
import Mathlib.Tactic.Ring
import Mathlib.Tactic.Common

/-! Numbers as byte strings of a fixed width, in the two byte orders.

`toLE w n` is what storing the `w`-byte number `n` leaves in memory on a
little-endian host, `ofLE` what loading it back gives; `toBE` and `ofBE` are the
network's order. Loading undoes storing (`ofLE_toLE`, `ofBE_toBE`), and a load of
two adjacent fields is the two loads (`ofLE_append`). -/
namespace PrivateCloud.Bytes

/-- The `w` low bytes of `n`, least significant first. -/
def toLE : ℕ → ℕ → List UInt8
  | 0, _ => []
  | w + 1, n => UInt8.ofNat n :: toLE w (n / 256)

def ofLE : List UInt8 → ℕ
  | [] => 0
  | b :: rest => b.toNat + 256 * ofLE rest

/-- Most significant first. -/
def toBE (w n : ℕ) : List UInt8 := (toLE w n).reverse

def ofBE (bytes : List UInt8) : ℕ := ofLE bytes.reverse

@[simp] theorem toLE_length (w n : ℕ) : (toLE w n).length = w := by
  induction w generalizing n with
  | zero => rfl
  | succ w ih => simp only [toLE, List.length_cons, ih]

@[simp] theorem toBE_length (w n : ℕ) : (toBE w n).length = w := by
  simp only [toBE, List.length_reverse, toLE_length]

theorem ofLE_toLE (w n : ℕ) : ofLE (toLE w n) = n % 256 ^ w := by
  induction w generalizing n with
  | zero => simp only [toLE, ofLE, pow_zero, Nat.mod_one]
  | succ w ih =>
    have hbyte : (UInt8.ofNat n).toNat = n % 256 := by simp
    rw [toLE, ofLE, ih, hbyte, Nat.pow_succ, Nat.mul_comm (256 ^ w), Nat.mod_mul]

theorem ofBE_toBE (w n : ℕ) : ofBE (toBE w n) = n % 256 ^ w := by
  rw [ofBE, toBE, List.reverse_reverse, ofLE_toLE]

theorem toLE_ofLE (bytes : List UInt8) : toLE bytes.length (ofLE bytes) = bytes := by
  induction bytes with
  | nil => rfl
  | cons b rest ih =>
    have hb : b.toNat < 256 := b.toNat_lt
    have hlow : UInt8.ofNat (ofLE (b :: rest)) = b := by
      apply UInt8.toNat_inj.mp
      simp only [ofLE, UInt8.toNat_ofNat']
      omega
    have hhigh : ofLE (b :: rest) / 256 = ofLE rest := by
      simp only [ofLE]
      omega
    rw [List.length_cons, toLE, hlow, hhigh, ih]

theorem ofLE_append (a b : List UInt8) : ofLE (a ++ b) = ofLE a + 256 ^ a.length * ofLE b := by
  induction a with
  | nil => simp only [List.nil_append, ofLE, List.length_nil, pow_zero, Nat.one_mul, Nat.zero_add]
  | cons x a ih =>
    simp only [List.cons_append, ofLE, ih, List.length_cons, Nat.pow_succ]
    ring

theorem ofLE_lt (bytes : List UInt8) : ofLE bytes < 256 ^ bytes.length := by
  induction bytes with
  | nil => exact Nat.one_pos
  | cons b rest ih =>
    have hb : b.toNat < 256 := b.toNat_lt
    simp only [ofLE, List.length_cons, Nat.pow_succ]
    omega

/-- The high bytes come first on the network: a number splits where its bytes do. -/
theorem toBE_split (high low n : ℕ) :
    toBE (high + low) n = toBE high (n / 256 ^ low) ++ toBE low n := by
  have hsplit : ∀ w m, toLE (low + w) m = toLE low m ++ toLE w (m / 256 ^ low) := by
    intro w
    induction low with
    | zero => intro m; simp only [Nat.zero_add, toLE, List.nil_append, pow_zero, Nat.div_one]
    | succ low ih =>
      intro m
      rw [Nat.succ_add_eq_add_succ, Nat.add_succ, toLE, ih, toLE, List.cons_append, Nat.div_div_eq_div_mul,
        Nat.pow_succ, Nat.mul_comm 256]
  rw [toBE, Nat.add_comm, hsplit, List.reverse_append]
  rfl

/-- The `w` bytes of a record from byte `at_` on. -/
def field (bytes : List UInt8) (at_ w : ℕ) : List UInt8 := (bytes.drop at_).take w

/-- The field a record starts with. -/
theorem field_here {front back : List UInt8} {w : ℕ} (h : front.length = w) :
    field (front ++ back) 0 w = front := by
  rw [field, List.drop_zero, ← h, List.take_left]

/-- A later field, looked for behind an earlier one. -/
theorem field_skip {front back : List UInt8} {at_ w : ℕ} (h : front.length ≤ at_) :
    field (front ++ back) at_ w = field back (at_ - front.length) w := by
  rw [field, field, List.drop_append, List.drop_of_length_le h, List.nil_append]

end PrivateCloud.Bytes
