import Mathlib.Data.Finset.Card
import Mathlib.Data.Int.Basic
import Mathlib.Tactic.Common

/-! The descriptors a process has open.

A new descriptor is the lowest number not in use, so a number that was closed comes
back. `close` answers -1 and changes nothing for a number that is not open: negative
numbers never are. -/
namespace PrivateCloud

@[ext]
structure Descriptors where
  fds : Finset ℤ
  nonneg : ∀ fd ∈ fds, 0 ≤ fd
deriving DecidableEq

namespace Descriptors
variable {t : Descriptors} {fd x : ℤ}

instance : Membership ℤ Descriptors := ⟨fun t fd => fd ∈ t.fds⟩

instance (t : Descriptors) (fd : ℤ) : Decidable (fd ∈ t) := inferInstanceAs (Decidable (fd ∈ t.fds))

theorem eq_of_mem {t t' : Descriptors} (h : ∀ fd, fd ∈ t ↔ fd ∈ t') : t = t' :=
  Descriptors.ext (Finset.ext h)

/-- The lowest number not in use. -/
def lowest (t : Descriptors) : ℕ :=
  ((List.range (t.fds.card + 1)).find? fun n : ℕ => (n : ℤ) ∉ t).getD 0

/-- One number more than there are descriptors: one of them is free. -/
theorem exists_free (t : Descriptors) : ∃ n ∈ List.range (t.fds.card + 1), (n : ℤ) ∉ t := by
  have hinj : Function.Injective (Nat.cast : ℕ → ℤ) := fun _ _ h => Int.ofNat.inj h
  have hcard : t.fds.card < ((Finset.range (t.fds.card + 1)).image (Nat.cast : ℕ → ℤ)).card := by
    rw [Finset.card_image_of_injective _ hinj, Finset.card_range]
    exact Nat.lt_succ_self _
  obtain ⟨e, he, hfree⟩ := Finset.exists_mem_notMem_of_card_lt_card hcard
  obtain ⟨n, hn, rfl⟩ := Finset.mem_image.mp he
  exact ⟨n, List.mem_range.mpr (Finset.mem_range.mp hn), hfree⟩

theorem lowest_notMem (t : Descriptors) : (t.lowest : ℤ) ∉ t := by
  obtain ⟨n, hn, hfree⟩ := exists_free t
  cases hfind : (List.range (t.fds.card + 1)).find? fun n : ℕ => (n : ℤ) ∉ t with
  | none =>
    have hused := List.find?_eq_none.mp hfind n hn
    exact absurd (decide_eq_true hfree) hused
  | some m =>
    have hm := List.find?_some hfind
    rw [lowest, hfind]
    exact of_decide_eq_true hm

/-- There are enough descriptors below the lowest free one to say where it is. -/
theorem lowest_le_card (t : Descriptors) : t.lowest ≤ t.fds.card := by
  obtain ⟨n, hn, hfree⟩ := exists_free t
  cases hfind : (List.range (t.fds.card + 1)).find? fun n : ℕ => (n : ℤ) ∉ t with
  | none =>
    rw [lowest, hfind]
    exact Nat.zero_le _
  | some m =>
    have hm := List.mem_of_find?_eq_some hfind
    rw [lowest, hfind]
    exact Nat.lt_succ_iff.mp (List.mem_range.mp hm)

/-! ### Opening and closing -/

/-- The next descriptor, and the table with it. -/
def take (t : Descriptors) : ℤ × Descriptors where
  fst := t.lowest
  snd :=
    { fds := insert (t.lowest : ℤ) t.fds
      nonneg := fun fd h =>
        (Finset.mem_insert.mp h).elim (fun h => h ▸ Int.natCast_nonneg _) (t.nonneg fd) }

def erase (t : Descriptors) (fd : ℤ) : Descriptors where
  fds := t.fds.erase fd
  nonneg x h := t.nonneg x (Finset.mem_of_mem_erase h)

def close (t : Descriptors) (fd : ℤ) : ℤ × Descriptors := if fd ∈ t then (0, t.erase fd) else (-1, t)

@[simp] theorem mem_take : x ∈ t.take.2 ↔ x = t.take.1 ∨ x ∈ t := Finset.mem_insert

@[simp] theorem mem_erase : x ∈ t.erase fd ↔ x ≠ fd ∧ x ∈ t := Finset.mem_erase

theorem take_notMem (t : Descriptors) : t.take.1 ∉ t := t.lowest_notMem

theorem take_nonneg (t : Descriptors) : 0 ≤ t.take.1 := Int.natCast_nonneg _

theorem take_le_card (t : Descriptors) : t.take.1 ≤ t.fds.card := Int.ofNat_le.mpr t.lowest_le_card

theorem card_take (t : Descriptors) : t.take.2.fds.card = t.fds.card + 1 :=
  Finset.card_insert_of_notMem t.lowest_notMem

theorem close_of_mem (h : fd ∈ t) : t.close fd = (0, t.erase fd) := if_pos h

theorem close_of_notMem (h : fd ∉ t) : t.close fd = (-1, t) := if_neg h

/-- Whatever `close` answers, the number is not open afterwards. -/
theorem mem_close : x ∈ (t.close fd).2 ↔ x ≠ fd ∧ x ∈ t := by
  unfold close
  split
  · exact mem_erase
  · next h => exact ⟨fun hx => ⟨fun heq => h (heq ▸ hx), hx⟩, And.right⟩

/-- A descriptor taken and closed again leaves no trace. -/
theorem erase_take (t : Descriptors) : t.take.2.erase t.take.1 = t := by
  refine eq_of_mem fun fd => ?_
  rw [mem_erase, mem_take]
  refine ⟨fun ⟨hne, h⟩ => h.resolve_left hne, fun h => ⟨fun heq => ?_, .inr h⟩⟩
  exact t.take_notMem (heq ▸ h)

end Descriptors

end PrivateCloud
