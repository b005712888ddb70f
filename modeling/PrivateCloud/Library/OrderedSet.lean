import Mathlib.Data.List.Sort

/-! `std::set` and its iterators.

The elements are kept in increasing order, each once. An iterator is known by the element
it is at, `none` is `end`: `first` is `begin` and `next` is `++`. What an iterator says is
said of the set's elements (`first_le`, `next_le`): there is nothing before the first one,
and nothing between one and the next. -/
namespace PrivateCloud

structure OrderedSet (α : Type*) [LinearOrder α] where
  elements : List α
  sorted : elements.Pairwise (· < ·)

namespace OrderedSet
variable {α : Type*} [LinearOrder α]

instance : Membership α (OrderedSet α) := ⟨fun s a => a ∈ s.elements⟩

instance (a : α) (s : OrderedSet α) : Decidable (a ∈ s) := inferInstanceAs (Decidable (a ∈ s.elements))

theorem mem_def {a : α} {s : OrderedSet α} : a ∈ s ↔ a ∈ s.elements := Iff.rfl

def empty : OrderedSet α := ⟨[], List.Pairwise.nil⟩

theorem sorted_orderedInsert {l : List α} {a : α} (hl : l.Pairwise (· < ·)) (ha : a ∉ l) :
    (l.orderedInsert (· ≤ ·) a).Pairwise (· < ·) := by
  have hle := (hl.imp le_of_lt).orderedInsert a l
  have hnodup : (l.orderedInsert (· ≤ ·) a).Nodup :=
    (l.perm_orderedInsert (· ≤ ·) a).nodup_iff.mpr (List.nodup_cons.mpr ⟨ha, hl.imp ne_of_lt⟩)
  exact (hle.and hnodup).imp fun h => lt_of_le_of_ne h.1 h.2

def insert (s : OrderedSet α) (a : α) : OrderedSet α :=
  if h : a ∈ s then s else ⟨s.elements.orderedInsert (· ≤ ·) a, sorted_orderedInsert s.sorted h⟩

def erase (s : OrderedSet α) (a : α) : OrderedSet α :=
  ⟨s.elements.erase a, s.sorted.sublist List.erase_sublist⟩

def first (s : OrderedSet α) : Option α := s.elements.head?

def next (s : OrderedSet α) (a : α) : Option α := s.elements.find? (a < ·)

variable {s : OrderedSet α} {a b c : α}

@[simp] theorem not_mem_empty : a ∉ (empty : OrderedSet α) := List.not_mem_nil

@[simp] theorem mem_insert : b ∈ s.insert a ↔ b = a ∨ b ∈ s := by
  unfold insert
  split
  case isTrue h => exact ⟨Or.inr, fun hb => hb.elim (fun heq => heq ▸ h) id⟩
  case isFalse => exact List.mem_orderedInsert _

@[simp] theorem mem_erase : b ∈ s.erase a ↔ b ≠ a ∧ b ∈ s :=
  List.Nodup.mem_erase_iff (s.sorted.imp ne_of_lt)

/-! ### Iterators -/

theorem first_mem (h : s.first = some a) : a ∈ s := List.mem_of_head? h

theorem first_le (h : s.first = some a) (hb : b ∈ s) : a ≤ b := by
  obtain ⟨rest, hrest⟩ := List.head?_eq_some_iff.mp h
  have hsorted := s.sorted
  rw [hrest] at hsorted
  rw [mem_def, hrest] at hb
  rcases List.mem_cons.mp hb with rfl | hb
  · exact le_refl _
  · exact le_of_lt ((List.pairwise_cons.mp hsorted).1 b hb)

theorem first_none (h : s.first = none) : b ∉ s := by
  rw [mem_def, List.head?_eq_none_iff.mp h]
  exact List.not_mem_nil

theorem next_mem (h : s.next a = some b) : b ∈ s := List.mem_of_find?_eq_some h

theorem lt_next (h : s.next a = some b) : a < b := by
  have hfound := List.find?_some h
  exact of_decide_eq_true hfound

theorem next_le (h : s.next a = some b) (hc : c ∈ s) (hac : a < c) : b ≤ c := by
  obtain ⟨-, before, after, hsplit, hbefore⟩ := List.find?_eq_some_iff_append.mp h
  have hsorted := s.sorted
  rw [hsplit] at hsorted
  rw [mem_def, hsplit] at hc
  rcases List.mem_append.mp hc with hc | hc
  · have hnot := hbefore c hc
    simp [hac] at hnot
  · rcases List.mem_cons.mp hc with rfl | hc
    · exact le_refl _
    · exact le_of_lt ((List.pairwise_cons.mp (List.pairwise_append.mp hsorted).2.1).1 c hc)

theorem next_none (h : s.next a = none) (hc : c ∈ s) : c ≤ a := by
  have hnot := List.find?_eq_none.mp h c hc
  simpa using hnot

end OrderedSet
end PrivateCloud
