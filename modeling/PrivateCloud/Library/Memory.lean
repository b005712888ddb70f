import Mathlib.Algebra.Order.Ring.Nat
import Mathlib.Data.List.GetD
import Mathlib.Data.List.Range
import Mathlib.Tactic.Common

/-! Byte memory: every address holds a byte, a block is read or written at an
address. A reader learns about a write through two facts only: at an address of the
block (`write_inside`) and elsewhere (`write_outside`). Allocation and bounds are
the user's: a block of a larger memory is a memory too. -/
namespace PrivateCloud

abbrev Memory := ℕ → UInt8

namespace Memory

/-- The `n` bytes from address `a` on. -/
def read (m : Memory) (a n : ℕ) : List UInt8 := (List.range n).map fun i => m (a + i)

/-- The block `bytes` stored at address `a`. -/
def write (m : Memory) (a : ℕ) (bytes : List UInt8) : Memory :=
  fun x => if a ≤ x ∧ x < a + bytes.length then bytes.getD (x - a) 0 else m x

@[simp] theorem read_length (m : Memory) (a n : ℕ) : (m.read a n).length = n := by
  simp only [read, List.length_map, List.length_range]

theorem read_getD (m : Memory) (a n : ℕ) {i : ℕ} (h : i < n) : (m.read a n).getD i 0 = m (a + i) := by
  simp [read, List.getD_eq_getElem?_getD, h]

theorem write_inside (m : Memory) {a x : ℕ} {bytes : List UInt8} (hlo : a ≤ x)
    (hhi : x < a + bytes.length) : m.write a bytes x = bytes.getD (x - a) 0 :=
  if_pos ⟨hlo, hhi⟩

theorem write_outside (m : Memory) {a x : ℕ} {bytes : List UInt8}
    (h : x < a ∨ a + bytes.length ≤ x) : m.write a bytes x = m x :=
  if_neg (by omega)

/-- Two memories that agree on a block read the same there. -/
theorem read_congr {m m' : Memory} {a a' n : ℕ} (h : ∀ i < n, m (a + i) = m' (a' + i)) :
    m.read a n = m'.read a' n := by
  apply List.map_congr_left
  intro i hi
  exact h i (List.mem_range.mp hi)

/-- What reading a block says about its bytes. -/
theorem read_eq_iff {m m' : Memory} {a a' n : ℕ} :
    m.read a n = m'.read a' n ↔ ∀ i < n, m (a + i) = m' (a' + i) := by
  refine ⟨fun h i hi => ?_, read_congr⟩
  rw [← read_getD m a n hi, h, read_getD m' a' n hi]

theorem read_write_same (m : Memory) (a : ℕ) (bytes : List UInt8) :
    (m.write a bytes).read a bytes.length = bytes := by
  apply List.ext_getElem
  · rw [read_length]
  · intro i h _
    rw [read_length] at h
    simp only [read, List.getElem_map, List.getElem_range]
    rw [write_inside m (Nat.le_add_right a i) (by omega), Nat.add_sub_cancel_left,
      List.getD_eq_getElem _ _ h]

theorem read_write_disjoint (m : Memory) {a b n : ℕ} {bytes : List UInt8}
    (h : b + n ≤ a ∨ a + bytes.length ≤ b) : (m.write a bytes).read b n = m.read b n :=
  read_congr fun i hi => write_outside m (by omega)

/-- A block copied from another memory. -/
theorem write_nil (m : Memory) (a : ℕ) : m.write a [] = m := by
  funext x
  exact write_outside m (by simp only [List.length_nil]; omega)

theorem write_read_inside (m m' : Memory) {a b n x : ℕ} (hlo : a ≤ x) (hhi : x < a + n) :
    m.write a (m'.read b n) x = m' (b + (x - a)) := by
  rw [write_inside m hlo (by rwa [read_length]), read_getD m' b n (by omega)]

theorem write_read_outside (m m' : Memory) {a b n x : ℕ} (h : x < a ∨ a + n ≤ x) :
    m.write a (m'.read b n) x = m x :=
  write_outside m (by rwa [read_length])

/-- A sub-block of a block just stored. -/
theorem read_write_inside (m m' : Memory) {a b n i k : ℕ} (h : i + k ≤ n) :
    (m.write a (m'.read b n)).read (a + i) k = m'.read (b + i) k :=
  read_congr fun j hj => by
    rw [write_read_inside m m' (by omega) (by omega)]
    congr 1
    omega

/-- Two neighbouring ranges are one. -/
theorem read_append (m : Memory) (a n k : ℕ) : m.read a n ++ m.read (a + n) k = m.read a (n + k) := by
  simp only [read, List.range_add, List.map_append, List.map_map, List.append_cancel_left_eq]
  apply List.map_congr_left
  intro i _
  rw [Function.comp_apply, Nat.add_assoc]

/-- A part of a range. -/
theorem take_drop_read (m : Memory) (a : ℕ) {n k j : ℕ} (h : k + j ≤ n) :
    ((m.read a n).drop k).take j = m.read (a + k) j := by
  obtain ⟨rest, rfl⟩ := Nat.exists_eq_add_of_le h
  rw [← read_append, ← read_append, List.append_assoc, List.drop_left' (read_length ..),
    List.take_left' (read_length ..)]

/-- A range is read the same if its pieces of size `n` are. -/
theorem read_pieces {m m' : Memory} {a a' n k : ℕ}
    (h : ∀ i < k, m.read (a + i * n) n = m'.read (a' + i * n) n) :
    m.read a (k * n) = m'.read a' (k * n) := by
  refine read_congr fun x hx => ?_
  have hn : 0 < n := Nat.pos_of_ne_zero fun h0 => by simp [h0] at hx
  have hi : x / n < k := Nat.div_lt_of_lt_mul (by rwa [Nat.mul_comm])
  have hpiece := read_eq_iff.mp (h (x / n) hi) (x % n) (Nat.mod_lt x hn)
  have hx' : x / n * n + x % n = x := by rw [Nat.mul_comm]; exact Nat.div_add_mod x n
  rwa [Nat.add_assoc, Nat.add_assoc, hx'] at hpiece

end Memory
end PrivateCloud
