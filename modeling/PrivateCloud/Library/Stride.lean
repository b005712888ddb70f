import Mathlib.Algebra.Order.Ring.Nat
import Mathlib.Data.Finset.Filter
import Mathlib.Data.Finset.Range
import Mathlib.Data.Multiset.Bind
import Mathlib.Tactic.Common

/-! Every `k`-th number.

A loop that starts at `i`, steps by `k` and stops at `n` visits `stride k i n`. One
turn takes the first number off (`stride_val_cons`), the loops that start at
`0, …, k - 1` visit every number below `n` once between them (`bind_stride`). -/
namespace PrivateCloud

def stride (k i n : ℕ) : Finset ℕ := (Finset.range n).filter fun j => i ≤ j ∧ j % k = i % k

namespace Stride
variable {k i j n : ℕ}

theorem mem_stride : j ∈ stride k i n ↔ j < n ∧ i ≤ j ∧ j % k = i % k := by
  simp only [stride, Finset.mem_filter, Finset.mem_range]

theorem stride_eq_empty (h : n ≤ i) : stride k i n = ∅ := by
  refine Finset.eq_empty_of_forall_notMem fun j hj => ?_
  obtain ⟨hlt, hle, -⟩ := mem_stride.mp hj
  omega

/-- One turn of the loop. -/
theorem stride_eq_cons (hk : 0 < k) (h : i < n) :
    stride k i n = Finset.cons i (stride k (i + k) n) fun hmem => by
      have := (mem_stride.mp hmem).2.1
      omega := by
  ext j
  rw [Finset.mem_cons, mem_stride, mem_stride, Nat.add_mod_right]
  constructor
  · rintro ⟨hlt, hle, hmod⟩
    by_cases hji : j = i
    · exact Or.inl hji
    · refine Or.inr ⟨hlt, ?_, hmod⟩
      -- The same remainder further up is at least one step further up.
      have hdiv := Nat.div_add_mod j k
      have hdiv' := Nat.div_add_mod i k
      have hquot : i / k < j / k := by
        by_contra hcon
        have : k * (j / k) ≤ k * (i / k) := Nat.mul_le_mul_left k (by omega)
        omega
      have : k * (i / k + 1) ≤ k * (j / k) := Nat.mul_le_mul_left k hquot
      rw [Nat.mul_add, Nat.mul_one] at this
      omega
  · rintro (rfl | ⟨hlt, hle, hmod⟩)
    · exact ⟨h, Nat.le_refl _, rfl⟩
    · exact ⟨hlt, by omega, hmod⟩

theorem stride_val_cons (hk : 0 < k) (h : i < n) :
    (stride k i n).val = i ::ₘ (stride k (i + k) n).val := by
  rw [stride_eq_cons hk h, Finset.cons_val]

/-- The loops cover everything between them, and nothing twice. -/
theorem bind_stride (hk : 0 < k) :
    (Multiset.range (min n k)).bind (fun j => (stride k j n).val) = Multiset.range n := by
  refine Multiset.Nodup.ext ?_ (Multiset.nodup_range n) |>.mpr fun j => ?_
  · refine Multiset.nodup_bind.mpr ⟨fun j _ => (stride k j n).nodup, ?_⟩
    refine (Multiset.nodup_range _).pairwise fun a ha b hb hab => ?_
    show Disjoint (stride k a n).val (stride k b n).val
    rw [Multiset.disjoint_left]
    intro j hja hjb
    have hamod := (mem_stride.mp hja).2.2
    have hbmod := (mem_stride.mp hjb).2.2
    have halt := Multiset.mem_range.mp ha
    have hblt := Multiset.mem_range.mp hb
    rw [Nat.mod_eq_of_lt (by omega : a < k)] at hamod
    rw [Nat.mod_eq_of_lt (by omega : b < k)] at hbmod
    exact hab (hamod.symm.trans hbmod)
  · simp only [Multiset.mem_bind, Multiset.mem_range, Finset.mem_val, mem_stride]
    constructor
    · rintro ⟨_, _, hlt, _⟩
      exact hlt
    · intro hlt
      have hmod : j % k < k := Nat.mod_lt j hk
      have hle : j % k ≤ j := Nat.mod_le j k
      exact ⟨j % k, by omega, hlt, hle, by rw [Nat.mod_mod]⟩

end Stride
end PrivateCloud
