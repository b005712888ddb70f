import Mathlib.Data.Finset.Card
import Mathlib.Data.Finset.Filter
import Mathlib.Data.Int.Order.Basic
import PrivateCloud.Library.Machine

/-! The reactor: `reactor.hpp` and `select.cpp`.

`Run` asks `select` for the descriptors that are ready, and as often as `select` says
that there are any it takes the next one out of the set `select` has left and calls the
handler registered for it. Handlers may be registered at any moment, in the middle of a
round too: that changes the set `select` is given next and the handlers, never the set
that is being worked off.

What a call finds under a descriptor nobody registered is an empty `Function`, which
the subscript has just inserted; calling it ends the process. `ready` and `calls` are
histories of the round that is going on; the source has neither. -/
namespace PrivateCloud.Reactor

/-- What an `fd_set` has room for. -/
def FD_SETSIZE : ℕ := 1024

/-! ### The monitor -/

structure Select where
  readSet : Finset ℕ
  master : Finset ℕ
  fdMax : ℕ

namespace Select

/-- `GetNextReadFd`'s loop from `i` on. -/
def scan (s : Select) : (fuel i : ℕ) → Int × Select
  | 0, _ => (-1, s)
  | fuel + 1, i =>
    if i ∈ s.readSet then (i, {s with readSet := s.readSet.erase i}) else scan s fuel (i + 1)

def getNextReadFd (s : Select) : Int × Select := s.scan (s.fdMax + 1) 0

def setRead (fd : ℕ) (s : Select) : Select :=
  {s with master := insert fd s.master, fdMax := max fd s.fdMax}

/-- What `select` comes back with: -1, and then nobody knows what it has left in the set,
or descriptors that are ready, and their number. -/
inductive Outcome where
  | error (left : Finset ℕ)
  | ready (fds : Finset ℕ)

/-- `select` reports descriptors that it was given, and below its first argument. -/
def WithinWatched (s : Select) : Outcome → Prop
  | .error _ => True
  | .ready fds => ∀ fd ∈ fds, fd ∈ s.master ∧ fd < s.fdMax + 1

instance (s : Select) : (outcome : Outcome) → Decidable (s.WithinWatched outcome)
  | .error _ => isTrue trivial
  | .ready fds => inferInstanceAs (Decidable (∀ fd ∈ fds, fd ∈ s.master ∧ fd < s.fdMax + 1))

/-- `WaitForEvent`: its result, and the set as `select` has left it. -/
def waitForEvent (s : Select) : Outcome → Int × Select
  | .error left => (-1, {s with readSet := left})
  | .ready fds => (fds.card, {s with readSet := fds})

/-- The scan finds the least descriptor of the set, if one is in reach. -/
theorem scan_least (s : Select) (fuel i : ℕ) (hbelow : ∀ j < i, j ∉ s.readSet)
    (hreach : ∃ k ∈ s.readSet, k < i + fuel) :
    ∃ fd ∈ s.readSet, (∀ k ∈ s.readSet, fd ≤ k) ∧
      s.scan fuel i = ((fd : Int), {s with readSet := s.readSet.erase fd}) := by
  induction fuel generalizing i with
  | zero =>
    obtain ⟨k, hk, hlt⟩ := hreach
    exact absurd hk (hbelow k hlt)
  | succ fuel ih =>
    rw [scan]
    by_cases hi : i ∈ s.readSet
    · refine ⟨i, hi, fun k hk => ?_, if_pos hi⟩
      by_contra hlt
      exact hbelow k (by omega) hk
    · rw [if_neg hi]
      refine ih (i + 1) (fun j hj => ?_) ?_
      · rcases Nat.lt_succ_iff_lt_or_eq.mp hj with hj | rfl
        · exact hbelow j hj
        · exact hi
      · obtain ⟨k, hk, hlt⟩ := hreach
        exact ⟨k, hk, by omega⟩

theorem getNextReadFd_least (s : Select) (hne : s.readSet.Nonempty)
    (hbound : ∀ k ∈ s.readSet, k ≤ s.fdMax) :
    ∃ fd ∈ s.readSet, (∀ k ∈ s.readSet, fd ≤ k) ∧
      s.getNextReadFd = ((fd : Int), {s with readSet := s.readSet.erase fd}) := by
  obtain ⟨k, hk⟩ := hne
  have hle := hbound k hk
  exact s.scan_least (s.fdMax + 1) 0 (fun j hj => absurd hj (Nat.not_lt_zero j)) ⟨k, hk, by omega⟩

end Select

/-! ### The reactor -/

variable {H : Type*}

/-- `m_handlers`: a descriptor is absent, or has the empty `Function`, or has a handler. -/
abbrev Handlers (H : Type*) := Int → Option (Option H)

/-- `m_handlers[fd]` -/
def Handlers.subscript (m : Handlers H) (fd : Int) : Option H × Handlers H :=
  match m fd with
  | some func => (func, m)
  | none => (none, Function.update m fd (some none))

/-- `n` is what is left of `Run`'s count. -/
structure State (H : Type*) where
  handlers : Handlers H
  monit : Select
  n : Int
  ready : Finset ℕ
  calls : List (Int × Option H)
  crashed : Bool

inductive Label (H : Type*) where
  /-- Somebody registers a handler, in a round or between two. -/
  | register (fd : ℕ) (func : H)
  /-- A round begins. -/
  | waitForEvent (outcome : Select.Outcome)
  /-- One turn of the round. -/
  | call

def init : State H := ⟨fun _ => none, ⟨∅, ∅, 0⟩, 0, ∅, [], false⟩

/-- `RegisterReadHandler` -/
def registerReadHandler (fd : ℕ) (func : H) (s : State H) : State H :=
  {s with handlers := Function.update s.handlers fd (some (some func)), monit := s.monit.setRead fd}

/-- The body of `Run`'s inner loop, and its decrement. -/
def dispatch (s : State H) : State H :=
  let (fd, monit) := s.monit.getNextReadFd
  let (func, handlers) := s.handlers.subscript fd
  { s with
    handlers := handlers
    monit := monit
    n := s.n - 1
    calls := s.calls ++ [(fd, func)]
    crashed := func.isNone }

def step (s : State H) (l : Label H) : Option (State H) :=
  if s.crashed then none
  else match l with
    | .register fd func => if fd < FD_SETSIZE then some (registerReadHandler fd func s) else none
    | .waitForEvent outcome =>
      if ¬0 < s.n ∧ s.monit.WithinWatched outcome then
        let (n, monit) := s.monit.waitForEvent outcome
        some { s with
          monit := monit
          n := n
          ready := match outcome with
            | .error _ => ∅
            | .ready fds => fds
          calls := [] }
      else none
    | .call => if 0 < s.n then some (dispatch s) else none

def machine (H : Type*) : Machine (State H) (Label H) := ⟨init, step⟩

/-! ### What one step can do -/

variable {s s' : State H}

theorem register_cases {fd : ℕ} {func : H} (h : step s (.register fd func) = some s') :
    s.crashed = false ∧ fd < FD_SETSIZE ∧ s' = registerReadHandler fd func s := by
  simp only [step] at h
  split at h
  case isTrue => cases h
  case isFalse halive =>
    split at h
    case isTrue hfd => exact ⟨by simpa using halive, hfd, (Option.some.inj h).symm⟩
    case isFalse => cases h

theorem waitForEvent_cases {outcome : Select.Outcome} (h : step s (.waitForEvent outcome) = some s') :
    s.crashed = false ∧ ¬0 < s.n ∧ s.monit.WithinWatched outcome ∧
      ((∃ left, outcome = .error left ∧
          s' = {s with monit := {s.monit with readSet := left}, n := -1, ready := ∅, calls := []}) ∨
        ∃ fds, outcome = .ready fds ∧
          s' = {s with monit := {s.monit with readSet := fds}, n := fds.card, ready := fds, calls := []}) := by
  simp only [step] at h
  split at h
  case isTrue => cases h
  case isFalse halive =>
    split at h
    case isTrue hw =>
      refine ⟨by simpa using halive, hw.1, hw.2, ?_⟩
      cases outcome with
      | error left => exact Or.inl ⟨left, rfl, (Option.some.inj h).symm⟩
      | ready fds => exact Or.inr ⟨fds, rfl, (Option.some.inj h).symm⟩
    case isFalse => cases h

theorem call_cases (h : step s .call = some s') : s.crashed = false ∧ 0 < s.n ∧ s' = dispatch s := by
  simp only [step] at h
  split at h
  case isTrue => cases h
  case isFalse halive =>
    split at h
    case isTrue hn => exact ⟨by simpa using halive, hn, (Option.some.inj h).symm⟩
    case isFalse => cases h

/-- `m_handlers[fd]` inserts no handler. -/
theorem subscript_handlers {m : Handlers H} {fd x : Int} {func : H}
    (h : (m.subscript fd).2 x = some (some func)) : m x = some (some func) := by
  unfold Handlers.subscript at h
  split at h
  case h_1 => exact h
  case h_2 =>
    have h : Function.update m fd (some none) x = some (some func) := h
    by_cases hx : x = fd
    · subst hx
      rw [Function.update_self] at h
      cases h
    · rwa [Function.update_of_ne hx] at h

/-- Only a registration brings a handler. -/
theorem step_handlers {l : Label H} (hl : ∀ fd func, l ≠ .register fd func) (hs : step s l = some s')
    {x : Int} {func : H} (h : s'.handlers x = some (some func)) : s.handlers x = some (some func) := by
  cases l with
  | register fd func => exact absurd rfl (hl fd func)
  | waitForEvent outcome =>
    obtain ⟨-, -, -, ⟨left, -, rfl⟩ | ⟨fds, -, rfl⟩⟩ := waitForEvent_cases hs
    · exact h
    · exact h
  | call =>
    obtain ⟨-, -, rfl⟩ := call_cases hs
    exact subscript_handlers h

/-! ### The invariant -/

/-- Watched descriptors are in reach of the scan, and they are those that have handlers. -/
structure Watched (s : State H) : Prop where
  reach : ∀ fd ∈ s.monit.master, fd ≤ s.monit.fdMax
  size : ∀ fd ∈ s.monit.master, fd < FD_SETSIZE
  handler : ∀ fd ∈ s.monit.master, ∃ func, s.handlers fd = some (some func)
  absent : ∀ x : Int, (∀ fd ∈ s.monit.master, x ≠ fd) → s.handlers x = none

/-- In a round each ready descriptor is called or still in the set, the ones called
being below the ones in the set. After an error the round is over. -/
structure Round (s : State H) : Prop where
  left : s.n = -1 ∨ s.n = s.monit.readSet.card
  failed : s.n = -1 → s.ready = ∅ ∧ s.calls = []
  watched : s.ready ⊆ s.monit.master
  split : s.n ≠ -1 → ∀ fd : ℕ, fd ∈ s.ready ↔ (fd : Int) ∈ s.calls.map Prod.fst ∨ fd ∈ s.monit.readSet
  fd : ∀ x ∈ s.calls.map Prod.fst, ∃ k ∈ s.ready, x = k
  below : s.n ≠ -1 → ∀ x ∈ s.calls.map Prod.fst, ∀ k ∈ s.monit.readSet, x < k
  sorted : (s.calls.map Prod.fst).Pairwise (· < ·)
  func : ∀ call ∈ s.calls, call.2.isSome = true
  alive : s.crashed = false

theorem watched_init : Watched (init : State H) where
  reach := nofun
  size := nofun
  handler := nofun
  absent := fun _ _ => rfl

theorem round_init : Round (init : State H) where
  left := Or.inr rfl
  failed := fun h => absurd h (show ¬(0 : Int) = -1 by decide)
  watched := Finset.Subset.refl _
  split := fun _ fd => by simp [init]
  fd := nofun
  below := nofun
  sorted := List.Pairwise.nil
  func := nofun
  alive := rfl

theorem watched_register {fd : ℕ} {func : H} (h : Watched s) (hfd : fd < FD_SETSIZE) :
    Watched (registerReadHandler fd func s) := by
  refine ⟨fun k hk => ?_, fun k hk => ?_, fun k hk => ?_, fun x hx => ?_⟩
  · rcases Finset.mem_insert.mp hk with rfl | hk
    · exact Nat.le_max_left _ _
    · exact Nat.le_trans (h.reach k hk) (Nat.le_max_right _ _)
  · rcases Finset.mem_insert.mp hk with rfl | hk
    · exact hfd
    · exact h.size k hk
  · by_cases hkf : k = fd
    · subst hkf
      exact ⟨func, Function.update_self ..⟩
    · have hne : (k : Int) ≠ fd := fun he => hkf (by exact_mod_cast he)
      obtain ⟨g, hg⟩ := h.handler k ((Finset.mem_insert.mp hk).resolve_left hkf)
      exact ⟨g, (Function.update_of_ne hne _ _).trans hg⟩
  · have hne : x ≠ fd := hx fd (Finset.mem_insert_self _ _)
    have hold : ∀ k ∈ s.monit.master, x ≠ k := fun k hk => hx k (Finset.mem_insert_of_mem hk)
    exact (Function.update_of_ne hne _ _).trans (h.absent x hold)

/-- A registration leaves the round as it is. -/
theorem round_register {fd : ℕ} {func : H} (h : Round s) : Round (registerReadHandler fd func s) :=
  ⟨h.left, h.failed, h.watched.trans (Finset.subset_insert _ _), h.split, h.fd, h.below, h.sorted, h.func,
    h.alive⟩

/-- **One turn of the inner loop.** The least descriptor of the set is called, through
the handler registered for it. -/
theorem dispatch_eq (h : Watched s) (hround : Round s) (hn : 0 < s.n) :
    ∃ fd ∈ s.monit.readSet, ∃ func, (∀ k ∈ s.monit.readSet, fd ≤ k) ∧ s.handlers fd = some (some func) ∧
      s.monit.getNextReadFd.1 = fd ∧
      dispatch s = { s with
        monit := {s.monit with readSet := s.monit.readSet.erase fd}
        n := s.n - 1
        calls := s.calls ++ [((fd : Int), some func)] } := by
  have hne : s.n ≠ -1 := by omega
  have hcard : s.n = s.monit.readSet.card := hround.left.resolve_left hne
  have hsub : s.monit.readSet ⊆ s.monit.master := fun k hk =>
    hround.watched ((hround.split hne k).mpr (Or.inr hk))
  have hnonempty : s.monit.readSet.Nonempty := Finset.card_pos.mp (by omega)
  obtain ⟨fd, hfd, hleast, hnext⟩ := s.monit.getNextReadFd_least hnonempty fun k hk => h.reach k (hsub hk)
  obtain ⟨func, hfunc⟩ := h.handler fd (hsub hfd)
  have halive := hround.alive
  refine ⟨fd, hfd, func, hleast, hfunc, by rw [hnext], ?_⟩
  simp only [dispatch, hnext, Handlers.subscript, hfunc, Option.isNone_some, ← halive]

theorem watched_call (h : Watched s) (hround : Round s) (hs : step s .call = some s') : Watched s' := by
  obtain ⟨-, hn, rfl⟩ := call_cases hs
  obtain ⟨fd, -, func, -, -, -, hnext⟩ := dispatch_eq h hround hn
  rw [hnext]
  exact ⟨h.reach, h.size, h.handler, h.absent⟩

theorem round_call (h : Watched s) (hround : Round s) (hs : step s .call = some s') : Round s' := by
  obtain ⟨halive, hn, rfl⟩ := call_cases hs
  obtain ⟨fd, hfd, func, hleast, -, -, hnext⟩ := dispatch_eq h hround hn
  have hne : s.n ≠ -1 := by omega
  have hcard : s.n = s.monit.readSet.card := hround.left.resolve_left hne
  have hready : fd ∈ s.ready := (hround.split hne fd).mpr (Or.inr hfd)
  have hcalls : (s.calls ++ [((fd : Int), some func)]).map Prod.fst =
      s.calls.map Prod.fst ++ [(fd : Int)] := by
    rw [List.map_append, List.map_singleton]
  rw [hnext]
  refine ⟨Or.inr ?_, fun hfail => ?_, hround.watched, fun _ k => ?_, fun x hx => ?_,
    fun _ x hx k hk => ?_, ?_,
    fun call hcall => ?_, halive⟩
  · show s.n - 1 = ((s.monit.readSet.erase fd).card : Int)
    rw [Finset.card_erase_of_mem hfd, hcard]
    omega
  · have hlast : s.n - 1 = -1 := hfail
    omega
  · rw [hcalls, List.mem_append, List.mem_singleton, Finset.mem_erase, hround.split hne]
    by_cases hk : k = fd
    · subst hk
      exact ⟨fun _ => Or.inl (Or.inr rfl), fun _ => Or.inr hfd⟩
    · have hkc : (k : Int) ≠ fd := fun he => hk (by exact_mod_cast he)
      simp only [hkc, or_false, hk, ne_eq, not_false_eq_true, true_and]
  · rw [hcalls] at hx
    rcases List.mem_append.mp hx with hx | hx
    · exact hround.fd x hx
    · exact ⟨fd, hready, List.mem_singleton.mp hx⟩
  · rw [hcalls] at hx
    obtain ⟨hkf, hk⟩ := Finset.mem_erase.mp hk
    rcases List.mem_append.mp hx with hx | hx
    · exact hround.below hne x hx k hk
    · -- The one just called was the least of the set.
      rw [List.mem_singleton.mp hx]
      have hle := hleast k hk
      have hlt : fd < k := lt_of_le_of_ne hle (Ne.symm hkf)
      exact_mod_cast hlt
  · rw [hcalls, List.pairwise_append]
    refine ⟨hround.sorted, List.pairwise_singleton _ _, fun x hx y hy => ?_⟩
    rw [List.mem_singleton.mp hy]
    exact hround.below hne x hx fd hfd
  · rcases List.mem_append.mp hcall with hcall | hcall
    · exact hround.func call hcall
    · rw [List.mem_singleton.mp hcall]
      rfl

/-- A round begins with every ready descriptor in the set, or does not begin. -/
theorem round_wait {outcome : Select.Outcome} (hs : step s (.waitForEvent outcome) = some s') :
    Round s' := by
  obtain ⟨halive, -, hwithin, ⟨left, rfl, rfl⟩ | ⟨fds, rfl, rfl⟩⟩ := waitForEvent_cases hs
  · exact ⟨Or.inl rfl, fun _ => ⟨rfl, rfl⟩, Finset.empty_subset _, fun h => absurd rfl h, nofun,
      fun h => absurd rfl h, List.Pairwise.nil, nofun, halive⟩
  · refine ⟨Or.inr rfl, fun hfail => ?_, fun fd hfd => (hwithin fd hfd).1, fun _ fd => ?_, nofun, nofun,
      List.Pairwise.nil, nofun, halive⟩
    · have hneg : (fds.card : Int) = -1 := hfail
      omega
    · simp

theorem step_kept {l : Label H} (h : Watched s ∧ Round s) (hs : step s l = some s') :
    Watched s' ∧ Round s' := by
  obtain ⟨hwatched, hround⟩ := h
  cases l with
  | register fd func =>
    obtain ⟨-, hfd, rfl⟩ := register_cases hs
    exact ⟨watched_register hwatched hfd, round_register hround⟩
  | waitForEvent outcome =>
    refine ⟨?_, round_wait hs⟩
    obtain ⟨-, -, -, ⟨left, -, rfl⟩ | ⟨fds, -, rfl⟩⟩ := waitForEvent_cases hs
    · exact ⟨hwatched.reach, hwatched.size, hwatched.handler, hwatched.absent⟩
    · exact ⟨hwatched.reach, hwatched.size, hwatched.handler, hwatched.absent⟩
  | call => exact ⟨watched_call hwatched hround hs, round_call hwatched hround hs⟩

theorem run_kept {trace : List (State H × Label H)} (run : (machine H).Run init trace s) :
    Watched s ∧ Round s :=
  run.invariant (P := fun s => Watched s ∧ Round s) (r := fun _ _ => True) ⟨watched_init, round_init⟩
    (fun _ _ _ h _ hs => step_kept h hs) (fun _ _ => trivial)

/-! ### Dispatch -/

/-- What a round owes the descriptors that are ready. -/
structure Dispatches (s : State H) : Prop where
  watched : ∀ fd ∈ s.monit.master, fd ≤ s.monit.fdMax ∧ ∃ func, s.handlers fd = some (some func)
  /-- No descriptor but the watched ones was ever looked up. -/
  others : ∀ x : Int, (∀ fd ∈ s.monit.master, x ≠ fd) → s.handlers x = none
  ready : s.ready ⊆ s.monit.master
  /-- The calls so far, in order, are of ready descriptors, none twice. -/
  order : (s.calls.map Prod.fst).Pairwise (· < ·) ∧ ∀ x ∈ s.calls.map Prod.fst, ∃ fd ∈ s.ready, x = fd
  func : ∀ call ∈ s.calls, call.2.isSome = true
  /-- As long as there is something left to call, the next turn calls it, through the handler
  registered for it. -/
  next : 0 < s.n → ∃ s', step s .call = some s' ∧ ∃ fd ∈ s.ready, ∃ func, (fd : Int) ∉ s.calls.map Prod.fst ∧
    s.monit.getNextReadFd.1 = fd ∧ s.handlers fd = some (some func) ∧
      s'.calls = s.calls ++ [((fd : Int), some func)] ∧ s'.n = s.n - 1 ∧ s'.handlers = s.handlers
  /-- When the inner loop is over, every ready descriptor was called. -/
  complete : ¬0 < s.n → ∀ fd ∈ s.ready, (fd : Int) ∈ s.calls.map Prod.fst

/-- **Dispatch.** In every run, with whatever registered whenever and whatever `select`
says: a round calls the handler of each ready descriptor once, in increasing order, and
no other. -/
theorem dispatches {trace : List (State H × Label H)} {s : State H} (run : (machine H).Run init trace s) :
    Dispatches s := by
  obtain ⟨hwatched, hround⟩ := run_kept run
  refine ⟨fun fd hfd => ⟨hwatched.reach fd hfd, hwatched.handler fd hfd⟩, hwatched.absent, hround.watched,
    ⟨hround.sorted, hround.fd⟩, hround.func, fun hn => ?_, fun hn fd hfd => ?_⟩
  · obtain ⟨fd, hfd, func, -, hfunc, hnext, heq⟩ := dispatch_eq hwatched hround hn
    have hne : s.n ≠ -1 := by omega
    refine ⟨dispatch s, by simp [step, hround.alive, hn], fd, (hround.split hne fd).mpr (Or.inr hfd),
      func, ?_, hnext, hfunc, by rw [heq], by rw [heq], by rw [heq]⟩
    intro hcalled
    exact lt_irrefl _ (hround.below hne fd hcalled fd hfd)
  · rcases eq_or_ne s.n (-1) with hfail | hne
    · rw [(hround.failed hfail).1] at hfd
      cases hfd
    · have hcard : s.n = s.monit.readSet.card := hround.left.resolve_left hne
      have hempty : s.monit.readSet = ∅ := Finset.card_eq_zero.mp (by omega)
      rcases (hround.split hne fd).mp hfd with hcalled | hleft
      · exact hcalled
      · rw [hempty] at hleft
        cases hleft

/-- Two descriptors are ready; the first handler registers a third in the middle. -/
theorem dispatches_two : ∃ trace s, (machine String).Run init trace s ∧ s.ready = {3, 5} ∧
    s.calls = [(3, some "nbd"), (5, some "iot")] ∧ Dispatches s := by
  obtain ⟨trace, s, run, h⟩ := Machine.run_of_replay (machine String) init
    [.register 5 "iot", .register 3 "nbd", .waitForEvent (.ready {3, 5}), .call, .register 9 "more", .call]
    (fun e => decide (e.2.ready = {3, 5} ∧ e.2.calls = [(3, some "nbd"), (5, some "iot")]))
    (by decide +kernel)
  obtain ⟨hready, hcalls⟩ := of_decide_eq_true h
  exact ⟨trace, s, run, hready, hcalls, dispatches run⟩

end PrivateCloud.Reactor
