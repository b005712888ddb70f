import Mathlib.Data.Finset.Card
import PrivateCloud.Observer.Observer

/-! `Notify`, and what the callbacks it calls do to its set.

A turn of the loop calls the callback at the iterator, which may call `Add` and `Remove` of
the same dispatcher for whom it likes, and then advances the iterator. An iterator stays
valid until its element is erased, and is not made valid again by inserting it: advancing
it then is a fault.

Whatever is inserted and erased elsewhere, the loop ends and everybody that stays is called
once. The one thing it does not survive is a callback that removes itself
(`notify_tolerates`). -/
namespace PrivateCloud.Observer.Notify

/-- What a callback does while it is notified. -/
inductive Act where
  | add (c : ℕ)
  | remove (c : ℕ)
  deriving DecidableEq

def Act.callback : Act → ℕ
  | .add c | .remove c => c

/-- `iter` is the element the iterator is at, none at the end; `erased` says that it was
erased since. `called` is a history, latest first. -/
structure Loop where
  state : State
  iter : Option ℕ
  erased : Bool
  called : List ℕ

def start (s : State) (d : ℕ) : Loop := ⟨s, (s.subscribers d).first, false, []⟩

def perform (d : ℕ) (loop : Loop) : Act → Loop
  | .add c => {loop with state := add loop.state d c}
  | .remove c => {loop with
      state := remove loop.state d c
      erased := loop.erased || (loop.iter = some c && c ∈ loop.state.subscribers d)}

/-- `m_function` of `c` is called. -/
def function (d c : ℕ) (loop : Loop) (acts : List Act) : Loop :=
  if c ∈ loop.state.callbacks then acts.foldl (perform d) {loop with called := c :: loop.called}
  else {loop with state := {loop.state with fault := true}}

/-- `++iter`, which is at `c`. -/
def advance (d c : ℕ) (loop : Loop) : Loop :=
  if loop.erased then {loop with state := {loop.state with fault := true}}
  else {loop with iter := (loop.state.subscribers d).next c}

/-- A turn of the loop, in which the callback does this; none at the end. -/
def step (d : ℕ) (loop : Loop) (acts : List Act) : Option Loop :=
  if loop.state.fault then none
  else match loop.iter with
    | some c =>
      if ∀ act ∈ acts, act.callback ∈ loop.state.callbacks then
        some (advance d c (function d c loop acts))
      else none
    | none => none

def machine (d : ℕ) (s : State) : Machine Loop (List Act) := ⟨start s d, step d⟩

/-- The callback that is called does not remove itself. -/
def Spares (loop : Loop) (acts : List Act) : Prop := ∀ c, loop.iter = some c → .remove c ∉ acts

variable {d c : ℕ} {s : State} {loop loop' : Loop} {acts : List Act}

theorem step_cases (h : step d loop acts = some loop') : loop.state.fault = false ∧
    ∃ c, loop.iter = some c ∧ (∀ act ∈ acts, act.callback ∈ loop.state.callbacks) ∧
      loop' = advance d c (function d c loop acts) := by
  unfold step at h
  split at h
  case isTrue => cases h
  case isFalse hfault =>
    split at h
    case h_1 c hiter =>
      split at h
      case isTrue hacts =>
        exact ⟨Bool.eq_false_of_not_eq_true hfault, c, hiter, hacts, (Option.some.inj h).symm⟩
      case isFalse => cases h
    case h_2 => cases h

/-! ### What a callback can do -/

/-- What is left of a loop by some acts on live callbacks. -/
structure Leaves (d : ℕ) (acts : List Act) (loop loop' : Loop) : Prop where
  fault : loop'.state.fault = loop.state.fault
  callbacks : loop'.state.callbacks = loop.state.callbacks
  iter : loop'.iter = loop.iter
  called : loop'.called = loop.called
  live : ∀ c ∈ loop'.state.subscribers d, c ∈ loop.state.subscribers d ∨ c ∈ loop.state.callbacks
  stays : ∀ c ∈ loop.state.subscribers d, .remove c ∉ acts → c ∈ loop'.state.subscribers d

theorem leaves_perform {act : Act} (h : act.callback ∈ loop.state.callbacks) :
    Leaves d [act] loop (perform d loop act) := by
  cases act with
  | add c =>
    have hadd : add loop.state d c = _ := add_live h
    refine ⟨?_, ?_, rfl, rfl, fun x hx => ?_, fun x hx _ => ?_⟩
    · rw [perform, hadd]
    · rw [perform, hadd]
    · rw [perform, hadd] at hx
      rcases OrderedSet.mem_insert.mp (by simpa using hx) with rfl | hx
      · exact Or.inr h
      · exact Or.inl hx
    · rw [perform, hadd]
      simpa using Or.inr hx
  | remove c =>
    have hremove : remove loop.state d c = _ := remove_live h
    refine ⟨?_, ?_, rfl, rfl, fun x hx => ?_, fun x hx hne => ?_⟩
    · rw [perform, hremove]
    · rw [perform, hremove]
    · rw [perform, hremove] at hx
      exact Or.inl (OrderedSet.mem_erase.mp (by simpa using hx)).2
    · rw [perform, hremove]
      have hxc : x ≠ c := fun heq => hne (heq ▸ List.mem_singleton_self _)
      simpa [hxc] using hx

theorem leaves_foldl (h : ∀ act ∈ acts, act.callback ∈ loop.state.callbacks) :
    Leaves d acts loop (acts.foldl (perform d) loop) := by
  induction acts generalizing loop with
  | nil => exact ⟨rfl, rfl, rfl, rfl, fun _ hc => Or.inl hc, fun _ hc _ => hc⟩
  | cons act acts ih =>
    obtain ⟨hact, hacts⟩ := List.forall_mem_cons.mp h
    have hfirst := leaves_perform (d := d) hact
    have hrest : Leaves d acts (perform d loop act) _ := ih (by rwa [hfirst.callbacks])
    refine ⟨hrest.fault.trans hfirst.fault, hrest.callbacks.trans hfirst.callbacks,
      hrest.iter.trans hfirst.iter, hrest.called.trans hfirst.called, fun c hc => ?_, fun c hc hne => ?_⟩
    · rcases hrest.live c hc with hc | hc
      · exact hfirst.live c hc
      · exact Or.inr (hfirst.callbacks ▸ hc)
    · obtain ⟨hne, hnone⟩ := not_or.mp (List.mem_cons.not.mp hne)
      exact hrest.stays c (hfirst.stays c hc (by simpa using hne)) hnone

/-- Once erased, the element stays so for the iterator. -/
theorem erased_foldl (h : loop.erased = true) : (acts.foldl (perform d) loop).erased = true := by
  induction acts generalizing loop with
  | nil => exact h
  | cons act acts ih =>
    refine ih ?_
    cases act with
    | add => exact h
    | remove => simp [perform, h]

/-- The iterator's element is erased by who removes it. -/
theorem erased_iff (hacts : ∀ act ∈ acts, act.callback ∈ loop.state.callbacks)
    (hiter : loop.iter = some c) (hc : c ∈ loop.state.subscribers d) (hvalid : loop.erased = false) :
    (acts.foldl (perform d) loop).erased = true ↔ .remove c ∈ acts := by
  induction acts generalizing loop with
  | nil => simp [hvalid]
  | cons act acts ih =>
    obtain ⟨hact, hrest⟩ := List.forall_mem_cons.mp hacts
    have hfirst := leaves_perform (d := d) hact
    rw [List.foldl_cons, List.mem_cons]
    by_cases heq : act = .remove c
    · subst heq
      exact iff_of_true (erased_foldl (by simp [perform, hiter, hc])) (Or.inl rfl)
    · rw [ih (by rwa [hfirst.callbacks]) (hfirst.iter.trans hiter)
        (hfirst.stays c hc (by simpa using Ne.symm heq)) ?_]
      · simp [Ne.symm heq]
      · cases act with
        | add => exact hvalid
        | remove x =>
          have hne : c ≠ x := fun h => heq (h ▸ rfl)
          simp [perform, hvalid, hiter, hne]

/-- A turn that began well, with a live callback at the iterator, is a fault exactly if
that callback removes itself. -/
theorem turn_cases (hacts : ∀ act ∈ acts, act.callback ∈ loop.state.callbacks)
    (hiter : loop.iter = some c) (hc : c ∈ loop.state.subscribers d) (hlive : c ∈ loop.state.callbacks)
    (hvalid : loop.erased = false) :
    (.remove c ∈ acts ∧ (advance d c (function d c loop acts)).state.fault = true) ∨
      (.remove c ∉ acts ∧ ∃ after, Leaves d acts {loop with called := c :: loop.called} after ∧
        after.erased = false ∧ advance d c (function d c loop acts) =
          {after with iter := (after.state.subscribers d).next c}) := by
  have hleaves : Leaves d acts {loop with called := c :: loop.called} _ := leaves_foldl hacts
  have herased : (acts.foldl (perform d) {loop with called := c :: loop.called}).erased = true ↔
      .remove c ∈ acts := erased_iff hacts hiter hc hvalid
  rw [function, if_pos hlive, advance]
  by_cases hself : Act.remove c ∈ acts
  · exact Or.inl ⟨hself, by rw [if_pos (herased.mpr hself)]⟩
  · have hnot := fun h => hself (herased.mp h)
    exact Or.inr ⟨hself, _, hleaves, Bool.eq_false_of_not_eq_true hnot, by rw [if_neg hnot]⟩

/-! ### The whole loop -/

/-- A loop that began with the dispatcher `d` of `s`, after these turns. -/
structure Inv (d : ℕ) (s : State) (trace : List (Loop × List Act)) (loop : Loop) : Prop where
  fault : loop.state.fault = false
  valid : loop.erased = false
  callbacks : loop.state.callbacks = s.callbacks
  live : ∀ c ∈ loop.state.subscribers d, c ∈ s.callbacks
  iter : ∀ c, loop.iter = some c → c ∈ loop.state.subscribers d
  /-- The iterator has left behind whom it has called. -/
  before : ∀ c, loop.iter = some c → ∀ x ∈ loop.called, x < c
  called : ∀ x ∈ loop.called, x ∈ s.callbacks
  nodup : loop.called.Nodup
  length : trace.length = loop.called.length
  subscribed : ∀ e ∈ trace, ∃ c, e.1.iter = some c ∧ c ∈ e.1.state.subscribers d
  /-- Who was there from the beginning and was never removed is there, and is called or to come. -/
  stays : ∀ x ∈ s.subscribers d, (∀ e ∈ trace, .remove x ∉ e.2) →
    x ∈ loop.state.subscribers d ∧ (x ∈ loop.called ∨ ∃ c, loop.iter = some c ∧ c ≤ x)

theorem inv_start (hfault : s.fault = false) (hlive : ∀ c ∈ s.subscribers d, c ∈ s.callbacks) :
    Inv d s [] (start s d) where
  fault := hfault
  valid := rfl
  callbacks := rfl
  live := hlive
  iter := fun _ hiter => OrderedSet.first_mem hiter
  before := fun _ _ _ => nofun
  called := nofun
  nodup := List.nodup_nil
  length := rfl
  subscribed := nofun
  stays := by
    intro x hx _
    refine ⟨hx, Or.inr ?_⟩
    cases hfirst : (s.subscribers d).first with
    | none => exact absurd hx (OrderedSet.first_none hfirst)
    | some c => exact ⟨c, hfirst, OrderedSet.first_le hfirst hx⟩

/-- A turn calls the callback at the iterator and goes on to the next one, among those that
are subscribed then. -/
theorem inv_turn {trace : List (Loop × List Act)} {after : Loop} (h : Inv d s trace loop)
    (hiter : loop.iter = some c) (hleaves : Leaves d acts {loop with called := c :: loop.called} after)
    (hvalid : after.erased = false) :
    Inv d s (trace ++ [(loop, acts)]) {after with iter := (after.state.subscribers d).next c} := by
  have hc := h.live c (h.iter c hiter)
  have hcalled : after.called = c :: loop.called := hleaves.called
  refine ⟨hleaves.fault.trans h.fault, hvalid, hleaves.callbacks.trans h.callbacks, fun x hx => ?_,
    fun x hx => OrderedSet.next_mem hx, fun x hx y hy => ?_, ?_, ?_, ?_,
    fun e he => ?_, fun x hx hnever => ?_⟩
  · rcases hleaves.live x hx with hx | hx
    · exact h.live x hx
    · exact h.callbacks ▸ hx
  · have hlt := OrderedSet.lt_next hx
    rw [hcalled] at hy
    rcases List.mem_cons.mp hy with rfl | hy
    · exact hlt
    · exact (h.before c hiter y hy).trans hlt
  · rw [hcalled]
    exact List.forall_mem_cons.mpr ⟨hc, h.called⟩
  · rw [hcalled]
    exact List.nodup_cons.mpr ⟨fun hmem => lt_irrefl c (h.before c hiter c hmem), h.nodup⟩
  · rw [hcalled, List.length_append, h.length]
    rfl
  · rcases List.mem_append.mp he with he | he
    · exact h.subscribed e he
    · rw [List.mem_singleton.mp he]
      exact ⟨c, hiter, h.iter c hiter⟩
  · obtain ⟨htrace, hlast⟩ := List.forall_mem_append.mp hnever
    obtain ⟨hmem, hwhere⟩ := h.stays x hx htrace
    have hstays : x ∈ after.state.subscribers d :=
      hleaves.stays x hmem (hlast _ (List.mem_singleton_self _))
    refine ⟨hstays, ?_⟩
    rw [hcalled]
    rcases hwhere with hwhere | ⟨c', hc', hle⟩
    · exact Or.inl (List.mem_cons_of_mem c hwhere)
    · obtain rfl : c = c' := Option.some.inj (hiter.symm.trans hc')
      rcases eq_or_lt_of_le hle with rfl | hlt
      · exact Or.inl List.mem_cons_self
      · -- Nobody between the iterator and the next one.
        cases hnext : (after.state.subscribers d).next c with
        | none => exact absurd hlt (not_lt_of_ge (OrderedSet.next_none hnext hstays))
        | some y => exact Or.inr ⟨y, rfl, OrderedSet.next_le hnext hstays hlt⟩

/-- The loop goes well exactly as long as nobody removes itself. -/
theorem run_inv {trace : List (Loop × List Act)} (run : (machine d s).Run (start s d) trace loop)
    (hfault : s.fault = false) (hlive : ∀ c ∈ s.subscribers d, c ∈ s.callbacks) :
    (Machine.Meets Spares trace ∧ Inv d s trace loop) ∨
      (¬Machine.Meets Spares trace ∧ loop.state.fault = true) := by
  induction run with
  | nil => exact Or.inl ⟨Machine.meets_nil, inv_start hfault hlive⟩
  | @snoc t u trace acts _ hs ih =>
    obtain ⟨hgood, c, hiter, hacts, rfl⟩ := step_cases hs
    rw [Machine.meets_snoc]
    rcases ih with ⟨hspares, hinv⟩ | ⟨_, hbad⟩
    · have hc := hinv.iter c hiter
      have hcalled : c ∈ t.state.callbacks := hinv.callbacks ▸ hinv.live c hc
      rcases turn_cases hacts hiter hc hcalled hinv.valid with
        ⟨hself, hbad⟩ | ⟨hself, after, hleaves, hvalid, heq⟩
      · exact Or.inr ⟨fun h => h.2 c hiter hself, hbad⟩
      · rw [heq]
        refine Or.inl ⟨⟨hspares, fun x hx => ?_⟩, inv_turn hinv hiter hleaves hvalid⟩
        exact Option.some.inj (hiter.symm.trans hx) ▸ hself
    · rw [hgood] at hbad
      cases hbad

/-- Callbacks that do nothing: the loop is `notify`. -/
theorem notify_idle {trace : List (Loop × List Act)} (run : (machine d s).Run (start s d) trace loop)
    (hfault : s.fault = false) (hlive : ∀ c ∈ s.subscribers d, c ∈ s.callbacks)
    (hidle : ∀ e ∈ trace, e.2 = []) : loop.state = notify s d := by
  rw [notify_live hlive]
  induction run with
  | nil => rfl
  | @snoc t u trace acts run hs ih =>
    obtain ⟨htrace, hlast⟩ := List.forall_mem_append.mp hidle
    obtain ⟨hgood, c, hiter, -, rfl⟩ := step_cases hs
    obtain rfl : acts = [] := hlast _ (List.mem_singleton_self _)
    rcases run_inv run hfault hlive with ⟨-, hinv⟩ | ⟨-, hbad⟩
    · have hcalled : c ∈ t.state.callbacks := hinv.callbacks ▸ hinv.live c (hinv.iter c hiter)
      rw [function, if_pos hcalled, advance, List.foldl_nil, hinv.valid, ← ih htrace]
      rfl
    · rw [hgood] at hbad
      cases hbad

/-- What `Notify` owes, whatever the callbacks do. -/
structure Tolerates (d : ℕ) (s : State) (trace : List (Loop × List Act)) (loop : Loop) : Prop where
  /-- No iterator is advanced whose element was erased, and nobody is called that is not alive. -/
  fault : loop.state.fault = false
  /-- Who is called is subscribed then. -/
  subscribed : ∀ e ∈ trace, ∃ c, e.1.iter = some c ∧ c ∈ e.1.state.subscribers d
  bounded : trace.length ≤ s.callbacks.card
  /-- The loop goes on until the iterator is at the end. -/
  turns : loop.iter ≠ none → ∀ acts : List Act, (∀ act ∈ acts, act.callback ∈ s.callbacks) →
    (step d loop acts).isSome
  nodup : loop.called.Nodup
  /-- Who was subscribed and was never removed is called. -/
  called : loop.iter = none → ∀ c ∈ s.subscribers d, (∀ e ∈ trace, .remove c ∉ e.2) →
    loop.called.count c = 1

theorem tolerates_of_inv {trace : List (Loop × List Act)} (h : Inv d s trace loop) :
    Tolerates d s trace loop where
  fault := h.fault
  subscribed := h.subscribed
  bounded := by
    have hsubset : loop.called.toFinset ⊆ s.callbacks := fun x hx => h.called x (List.mem_toFinset.mp hx)
    rw [h.length, ← List.toFinset_card_of_nodup h.nodup]
    exact Finset.card_le_card hsubset
  turns := by
    intro hiter acts hacts
    obtain ⟨c, hc⟩ := Option.ne_none_iff_exists'.mp hiter
    simpa [step, h.fault, hc, h.callbacks] using hacts
  nodup := h.nodup
  called := by
    intro hend c hc hnever
    rcases (h.stays c hc hnever).2 with hcalled | ⟨x, hx, -⟩
    · exact List.count_eq_one_of_mem h.nodup hcalled
    · rw [hend] at hx
      cases hx

/-- **What `Notify` tolerates.** Whatever the callbacks do that are called, the loop ends,
calls nobody twice and only who is subscribed, and misses nobody that stays, exactly if none
of them removes itself. -/
theorem notify_tolerates {trace : List (Loop × List Act)} {loop : Loop} {d : ℕ} {s : State}
    (hfault : s.fault = false) (hlive : ∀ c ∈ s.subscribers d, c ∈ s.callbacks)
    (run : (machine d s).Run (start s d) trace loop) :
    Tolerates d s trace loop ↔ Machine.Meets Spares trace := by
  rcases run_inv run hfault hlive with ⟨hspares, hinv⟩ | ⟨hspares, hbad⟩
  · exact iff_of_true (tolerates_of_inv hinv) hspares
  · refine iff_of_false (fun h => ?_) hspares
    rw [h.fault] at hbad
    cases hbad

instance (loop : Loop) (acts : List Act) : Decidable (Spares loop acts) :=
  inferInstanceAs (Decidable (∀ c ∈ loop.iter, .remove c ∉ acts))

/-- Callbacks 1, 2 and 4 are subscribed to dispatcher 7, and 3 is not. -/
def group : State := [1, 2, 4].foldl (fun s c => add s 7 c)
  ⟨{7}, {1, 2, 3, 4}, fun _ => .empty, fun _ => .null, false⟩

/-- The first callback adds one and removes one, and the added one is called. -/
theorem notify_tolerates_group : ∃ trace loop, (machine 7 group).Run (start group 7) trace loop ∧
    loop.iter = none ∧ loop.called = [4, 3, 1] ∧ Tolerates 7 group trace loop := by
  obtain ⟨trace, loop, run, h⟩ := (machine 7 group).run_of_replay (start group 7)
    [[.add 3, .remove 2], [.remove 1], []]
    (fun e => decide (e.2.iter = none ∧ e.2.called = [4, 3, 1] ∧ Machine.Meets Spares e.1))
    (by decide +kernel)
  obtain ⟨hend, hcalled, hspares⟩ := of_decide_eq_true h
  have hlive : ∀ c ∈ (group.subscribers 7).elements, c ∈ group.callbacks := by decide +kernel
  exact ⟨trace, loop, run, hend, hcalled, (notify_tolerates rfl hlive run).mpr hspares⟩

/-- The first callback removes itself: the iterator is advanced from an erased element. -/
theorem notify_erased : ∃ trace loop, (machine 7 group).Run (start group 7) trace loop ∧
    loop.erased = true ∧ ¬Tolerates 7 group trace loop := by
  obtain ⟨trace, loop, run, h⟩ := (machine 7 group).run_of_replay (start group 7) [[.remove 1]]
    (fun e => decide (e.2.erased = true ∧ e.2.state.fault = true)) (by decide +kernel)
  obtain ⟨herased, hfault⟩ := of_decide_eq_true h
  exact ⟨trace, loop, run, herased, fun h => by simp [h.fault] at hfault⟩

end PrivateCloud.Observer.Notify
