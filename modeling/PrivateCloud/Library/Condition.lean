import PrivateCloud.Library.Bag

/-! Condition variables.

The threads of a monitor are a list, each at some point of its code; those asleep on the
condition variable are told apart by a predicate, and all go on from one point when they
are woken. `wake` wakes one up, for whatever reason; `notifyOne` is `notify_one`, which
wakes one of those asleep and does nothing where nobody is. How many threads are where
follows, for any two kinds of threads, from `countP_wake` and `countP_notifyOne`. -/
namespace PrivateCloud.Condition
variable {P : Type*} {asleep p : P → Bool} {woken : P} {threads threads' : List P}

/-- Thread `k` comes out of its wait. -/
def wake (asleep : P → Bool) (woken : P) (threads : List P) (k : ℕ) : Option (List P) :=
  if (threads[k]?).any asleep then some (threads.set k woken) else none

/-- `notified` is the thread that is woken up, none only if there is none asleep. -/
def notifyOne (asleep : P → Bool) (woken : P) (threads : List P) : Option ℕ → Option (List P)
  | some k => wake asleep woken threads k
  | none => if threads.any asleep then none else some threads

theorem wake_cases {k : ℕ} (h : wake asleep woken threads k = some threads') :
    ∃ thread, threads[k]? = some thread ∧ asleep thread = true ∧ threads' = threads.set k woken := by
  unfold wake at h
  split at h
  case isTrue hany =>
    obtain ⟨thread, hk, hasleep⟩ := (Option.any_eq_true _ _).mp hany
    exact ⟨thread, hk, hasleep, (Option.some.inj h).symm⟩
  case isFalse => cases h

theorem notifyOne_cases {notified : Option ℕ}
    (h : notifyOne asleep woken threads notified = some threads') :
    (threads' = threads ∧ threads.countP asleep = 0) ∨ ∃ k, wake asleep woken threads k = some threads' := by
  cases notified with
  | some k => exact Or.inr ⟨k, h⟩
  | none =>
    simp only [notifyOne] at h
    split at h
    case isTrue => cases h
    case isFalse hnone =>
      refine Or.inl ⟨(Option.some.inj h).symm, List.countP_eq_zero.mpr fun thread hmem hasleep => ?_⟩
      exact hnone (List.any_eq_true.mpr ⟨thread, hmem, hasleep⟩)

/-- What is told alike of those asleep and those awake stays the same of every thread. -/
theorem map_wake {β : Type*} {f : P → β} {k : ℕ} (h : wake asleep woken threads k = some threads')
    (hsame : ∀ thread, asleep thread = true → f thread = f woken) : threads'.map f = threads.map f := by
  obtain ⟨thread, hk, hasleep, rfl⟩ := wake_cases h
  obtain ⟨hlt, rfl⟩ := List.getElem?_eq_some_iff.mp hk
  rw [List.map_set, ← hsame _ hasleep, ← List.map_set, List.set_getElem_self]

theorem map_notifyOne {β : Type*} {f : P → β} {notified : Option ℕ}
    (h : notifyOne asleep woken threads notified = some threads')
    (hsame : ∀ thread, asleep thread = true → f thread = f woken) : threads'.map f = threads.map f := by
  rcases notifyOne_cases h with ⟨rfl, -⟩ | ⟨k, hk⟩
  · rfl
  · exact map_wake hk hsame

/-- Somebody or nobody can be notified. -/
theorem exists_notifyOne (asleep : P → Bool) (woken : P) (threads : List P) :
    ∃ notified threads', notifyOne asleep woken threads notified = some threads' := by
  cases hany : threads.any asleep with
  | false => exact ⟨none, threads, by simp [notifyOne, hany]⟩
  | true =>
    obtain ⟨thread, hmem, hasleep⟩ := List.any_eq_true.mp hany
    obtain ⟨k, hk⟩ := List.mem_iff_getElem?.mp hmem
    exact ⟨some k, _, if_pos (by simp [hk, hasleep])⟩

/-- What is added up over the threads grows by what the woken one counts for. -/
theorem sum_map_notifyOne {f : P → ℕ} {notified : Option ℕ}
    (h : notifyOne asleep woken threads notified = some threads') :
    (threads'.map f).sum ≤ (threads.map f).sum + f woken := by
  rcases notifyOne_cases h with ⟨rfl, -⟩ | ⟨k, hk⟩
  · exact Nat.le_add_right _ _
  · obtain ⟨thread, hthread, -, rfl⟩ := wake_cases hk
    have hsum := Bag.sum_map_set f hthread woken
    omega

/-! ### How many threads are where -/

/-- Threads that are counted alike asleep and awake. -/
theorem countP_wake {k : ℕ} (h : wake asleep woken threads k = some threads')
    (hsame : ∀ thread, asleep thread = true → p thread = p woken) :
    threads'.countP p = threads.countP p := by
  obtain ⟨thread, hk, hasleep, rfl⟩ := wake_cases h
  exact Bag.countP_set_same hk (hsame thread hasleep).symm

theorem countP_notifyOne {notified : Option ℕ}
    (h : notifyOne asleep woken threads notified = some threads')
    (hsame : ∀ thread, asleep thread = true → p thread = p woken) :
    threads'.countP p = threads.countP p := by
  rcases notifyOne_cases h with ⟨rfl, -⟩ | ⟨k, hk⟩
  · rfl
  · exact countP_wake hk hsame

/-- One thread less is asleep. -/
theorem countP_asleep_wake {k : ℕ} (h : wake asleep woken threads k = some threads')
    (hwoken : asleep woken = false) : threads'.countP asleep + 1 = threads.countP asleep := by
  obtain ⟨thread, hk, hasleep, rfl⟩ := wake_cases h
  exact Bag.countP_set_leave hk hasleep hwoken

/-- One more is where the woken ones are. -/
theorem countP_woken_wake {k : ℕ} (h : wake asleep woken threads k = some threads')
    (hwoken : p woken = true) (hasleep : ∀ thread, asleep thread = true → p thread = false) :
    threads'.countP p = threads.countP p + 1 := by
  obtain ⟨thread, hk, hthread, rfl⟩ := wake_cases h
  exact Bag.countP_set_enter hk (hasleep thread hthread) hwoken

end PrivateCloud.Condition
