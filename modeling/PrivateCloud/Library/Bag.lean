import Mathlib.Algebra.GroupWithZero.Nat
import Mathlib.Data.Fintype.EquivFin
import Mathlib.Data.Multiset.Bind
import Mathlib.Data.List.Perm.Basic

/-! Lists whose order is nobody's business.

A pool of tasks, the messages of a network, the workers of a pool: a list that is
read and changed at one place at a time, and about which everything worth saying is
said of its multiset. The place is named by its index, so that a schedule can be a
list of indices; `coe_eq_cons` takes the element at the place out, `coe_set` puts
another one in, and what counting or summing over the list gives follows from the
multiset's own lemmas. -/
namespace PrivateCloud.Bag
variable {α β : Type*}

theorem coe_eq_cons {l : List α} {i : ℕ} {a : α} (h : l[i]? = some a) :
    (l : Multiset α) = a ::ₘ (l.eraseIdx i : Multiset α) := by
  obtain ⟨hi, rfl⟩ := List.getElem?_eq_some_iff.mp h
  exact (Multiset.coe_eq_coe.mpr (List.getElem_cons_eraseIdx_perm hi)).symm

theorem coe_set {l : List α} {i : ℕ} {a : α} (h : l[i]? = some a) (b : α) :
    ((l.set i b : List α) : Multiset α) = b ::ₘ (l.eraseIdx i : Multiset α) := by
  obtain ⟨hi, -⟩ := List.getElem?_eq_some_iff.mp h
  exact Multiset.coe_eq_coe.mpr (List.set_perm_cons_eraseIdx hi b)

theorem coe_erase [DecidableEq α] {l : List α} {a : α} (h : a ∈ l) :
    (l : Multiset α) = a ::ₘ (l.erase a : Multiset α) :=
  Multiset.coe_eq_coe.mpr (List.perm_cons_erase h)

theorem mem_set {l : List α} {i : ℕ} {a b : α} (h : a ∈ l.set i b) : a = b ∨ a ∈ l := by
  rcases List.mem_or_eq_of_mem_set h with h | h
  · exact Or.inr h
  · exact Or.inl h

/-- Counting, with one element exchanged. -/
theorem countP_set {l : List α} {i : ℕ} {a : α} (p : α → Bool) (h : l[i]? = some a) (b : α) :
    (l.set i b).countP p + (if p a then 1 else 0) = l.countP p + (if p b then 1 else 0) := by
  obtain ⟨hi, rfl⟩ := List.getElem?_eq_some_iff.mp h
  have hset := (List.set_perm_cons_eraseIdx hi b).countP_eq p
  have hold := (List.getElem_cons_eraseIdx_perm hi).countP_eq p
  rw [List.countP_cons] at hset hold
  omega

/-- Adding up, with one element exchanged. -/
theorem sum_map_set {l : List α} {i : ℕ} {a : α} (f : α → ℕ) (h : l[i]? = some a) (b : α) :
    ((l.set i b).map f).sum + f a = (l.map f).sum + f b := by
  obtain ⟨hi, rfl⟩ := List.getElem?_eq_some_iff.mp h
  have hset := ((List.set_perm_cons_eraseIdx hi b).map f).sum_eq
  have hold := ((List.getElem_cons_eraseIdx_perm hi).map f).sum_eq
  rw [List.map_cons, List.sum_cons] at hset hold
  omega

section Moves
variable {l : List α} {i : ℕ} {a b : α} {p : α → Bool}

/-- The new element counts as the old one did. -/
theorem countP_set_same (h : l[i]? = some a) (hsame : p b = p a) :
    (l.set i b).countP p = l.countP p := by
  have hcount := countP_set p h b
  rw [hsame] at hcount
  exact Nat.add_right_cancel hcount

/-- The new element counts and the old one did not. -/
theorem countP_set_enter (h : l[i]? = some a) (ha : p a = false) (hb : p b = true) :
    (l.set i b).countP p = l.countP p + 1 := by
  have hcount := countP_set p h b
  rwa [ha, hb, if_neg Bool.false_ne_true, if_pos rfl, Nat.add_zero] at hcount

/-- The old element counted and the new one does not. -/
theorem countP_set_leave (h : l[i]? = some a) (ha : p a = true) (hb : p b = false) :
    (l.set i b).countP p + 1 = l.countP p := by
  have hcount := countP_set p h b
  rwa [ha, hb, if_neg Bool.false_ne_true, if_pos rfl, Nat.add_zero] at hcount

/-- One element less counts at most. -/
theorem countP_set_le (h : l[i]? = some a) : l.countP p ≤ (l.set i b).countP p + 1 := by
  have hcount := countP_set p h b
  have hone : (if p a then 1 else 0) ≤ 1 := by split <;> decide
  omega

end Moves

/-- Names do not run out. -/
theorem exists_fresh [DecidableEq β] [Infinite β] (name : α → β) (l : List α) :
    ∃ b, (l.all fun a => name a != b) = true := by
  obtain ⟨b, hnew⟩ := Infinite.exists_notMem_finset (l.map name).toFinset
  refine ⟨b, List.all_eq_true.mpr fun a ha => ?_⟩
  rw [bne_iff_ne]
  intro hsame
  subst hsame
  exact hnew (List.mem_toFinset.mpr (List.mem_map_of_mem ha))

/-! ### What is at a place -/

theorem any_append {l : List α} {a : α} {p : α → Bool} (j : ℕ) :
    ((l ++ [a])[j]?).any p = if j = l.length then p a else (l[j]?).any p := by
  rcases Nat.lt_trichotomy j l.length with hj | rfl | hj
  · rw [List.getElem?_append_left hj, if_neg (Nat.ne_of_lt hj)]
  · simp
  · rw [if_neg (Nat.ne_of_gt hj), List.getElem?_eq_none (by simp; omega), List.getElem?_eq_none (by omega)]

/-- What is of another kind is not seen. -/
theorem any_append_none {l : List α} {a : α} {p : α → Bool} (ha : p a = false) (j : ℕ) :
    ((l ++ [a])[j]?).any p = (l[j]?).any p := by
  rw [any_append]
  split
  case isTrue hj => rw [hj, ha, List.getElem?_eq_none (Nat.le_refl _), Option.any_none]
  case isFalse => rfl

theorem any_set {l : List α} {k : ℕ} {a b : α} {p : α → Bool} (hk : l[k]? = some a) (j : ℕ) :
    ((l.set k b)[j]?).any p = if j = k then p b else (l[j]?).any p := by
  obtain ⟨hlt, -⟩ := List.getElem?_eq_some_iff.mp hk
  by_cases hj : j = k
  · subst hj
    simp [hlt]
  · rw [if_neg hj, List.getElem?_set_ne (Ne.symm hj)]

/-- What has the same of its kind at `k` looks the same everywhere. -/
theorem any_set_same {l : List α} {k : ℕ} {a b : α} {p : α → Bool} (hk : l[k]? = some a)
    (hsame : p b = p a) (j : ℕ) : ((l.set k b)[j]?).any p = (l[j]?).any p := by
  rw [any_set hk]
  split
  case isTrue hj => rw [hj, hk, hsame]; rfl
  case isFalse => rfl

/-! ### The first of its kind

A queue among many, all kept in one list: the queue is a filter of the list and its
head is what `eraseP` takes out. -/

theorem find?_of_filter {l rest : List α} {p : α → Bool} {a : α} (h : l.filter p = a :: rest) :
    l.find? p = some a := by
  rw [← List.head?_filter, h, List.head?_cons]

theorem filter_eraseP {l : List α} {p : α → Bool} : (l.eraseP p).filter p = (l.filter p).tail := by
  induction l with
  | nil => rfl
  | cons b l ih =>
    cases hb : p b with
    | true => rw [List.eraseP_cons_of_pos hb, List.filter_cons_of_pos hb, List.tail_cons]
    | false =>
      have hneg : ¬p b = true := by simp [hb]
      rw [List.eraseP_cons_of_neg hneg, List.filter_cons_of_neg hneg, List.filter_cons_of_neg hneg, ih]

theorem filter_eraseP_other {l : List α} {p q : α → Bool} (h : ∀ x, p x = true → q x = false) :
    (l.eraseP p).filter q = l.filter q := by
  induction l with
  | nil => rfl
  | cons b l ih =>
    cases hb : p b with
    | true =>
      have hneg : ¬q b = true := by simp [h b hb]
      rw [List.eraseP_cons_of_pos hb, List.filter_cons_of_neg hneg]
    | false =>
      have hneg : ¬p b = true := by simp [hb]
      rw [List.eraseP_cons_of_neg hneg, List.filter_cons, List.filter_cons, ih]

theorem coe_eraseP {l rest : List α} {p : α → Bool} {a : α} (h : l.filter p = a :: rest) :
    (l : Multiset α) = a ::ₘ (l.eraseP p : Multiset α) := by
  induction l with
  | nil => cases h
  | cons b l ih =>
    cases hb : p b with
    | true =>
      rw [List.filter_cons_of_pos hb] at h
      obtain ⟨rfl, -⟩ := List.cons.inj h
      rw [List.eraseP_cons_of_pos hb, Multiset.cons_coe]
    | false =>
      have hneg : ¬p b = true := by simp [hb]
      rw [List.filter_cons_of_neg hneg] at h
      rw [List.eraseP_cons_of_neg hneg, ← Multiset.cons_coe, ← Multiset.cons_coe, ih h,
        Multiset.cons_swap]

end PrivateCloud.Bag
