import PrivateCloud.Observer.Observer

/-! The two sides of a subscription.

A callback should be in the set of a dispatcher exactly if it points to it (`TwoWay`).
`Add` and `Remove` write both sides for one dispatcher and do not look where the callback
pointed before: one that was subscribed elsewhere stays in that set, and pointing away
from it. For every step it is said exactly when it keeps the two sides equal (`Keeps`),
and so for every run (`links_two_way`). -/
namespace PrivateCloud.Observer
variable {s s' : State} {l : Label} {c d : ℕ}

def TwoWay (s : State) : Prop :=
  ∀ d ∈ s.dispatchers, ∀ c, c ∈ s.subscribers d ↔ c ∈ s.callbacks ∧ (s.link c).value = some d

/-- What a step has to keep away from. A callback that is constructed or whose `Add` or
`Remove` is called points to no other dispatcher, nobody points where a dispatcher is
constructed, and a dispatcher that is copied has no subscribers. -/
def Keeps (s : State) : Label → Prop
  | .callback _ stale => ∀ d ∈ s.dispatchers, stale ≠ some d
  | .copyCallback _ original => ∀ d ∈ s.dispatchers, (s.link original).value ≠ some d
  | .dispatcher d => ∀ c ∈ s.callbacks, (s.link c).value ≠ some d
  | .copyDispatcher d original =>
    (∀ c, c ∉ s.subscribers original) ∧ ∀ c ∈ s.callbacks, (s.link c).value ≠ some d
  | .add d c | .remove d c => ∀ other ∈ s.dispatchers, (s.link c).value = some other → other = d
  | .notify _ | .destroyCallback _ | .destroyDispatcher _ => True

/-- No destructor faults. -/
def Clean (s : State) : Label → Prop
  | .destroyCallback c => (destroyCallback s c).fault = false
  | .destroyDispatcher d => (destroyDispatcher s d).fault = false
  | _ => True

theorem TwoWay.subscribers_live (h : TwoWay s) (hd : d ∈ s.dispatchers) {c : ℕ}
    (hc : c ∈ s.subscribers d) : c ∈ s.callbacks := ((h d hd c).mp hc).1

/-- Of the live dispatchers only one has the callback. -/
theorem TwoWay.unique (h : TwoWay s) {e : ℕ} (hd : d ∈ s.dispatchers) (he : e ∈ s.dispatchers)
    (hcd : c ∈ s.subscribers d) (hce : c ∈ s.subscribers e) : d = e :=
  Option.some.inj (((h d hd c).mp hcd).2.symm.trans ((h e he c).mp hce).2)

/-! ### Constructors -/

theorem twoWay_newCallback {link : Link} (h : TwoWay s) (hc : c ∉ s.callbacks) :
    TwoWay (newCallback s c link) ↔ ∀ d ∈ s.dispatchers, link.value ≠ some d := by
  have hout : ∀ d ∈ s.dispatchers, c ∉ s.subscribers d :=
    fun d hd hmem => hc (h.subscribers_live hd hmem)
  constructor
  · intro h' d hd hlink
    refine hout d hd ((h' d hd c).mpr ⟨Finset.mem_insert_self c s.callbacks, ?_⟩)
    simpa [newCallback] using hlink
  · intro hlink d hd x
    by_cases hx : x = c
    · subst hx
      simp [newCallback, hout d hd, hlink d hd]
    · simpa [newCallback, hx] using h d hd x

theorem twoWay_newDispatcher {subscribers : OrderedSet ℕ} (h : TwoWay s) (hd : d ∉ s.dispatchers) :
    TwoWay (newDispatcher s d subscribers) ↔
      ∀ c, c ∈ subscribers ↔ c ∈ s.callbacks ∧ (s.link c).value = some d := by
  constructor
  · intro h' c
    simpa [newDispatcher, setSubscribers] using h' d (Finset.mem_insert_self d s.dispatchers) c
  · intro hset e he c
    rcases Finset.mem_insert.mp he with rfl | he
    · simpa [newDispatcher, setSubscribers] using hset c
    · have hne : e ≠ d := fun heq => hd (heq ▸ he)
      simpa [newDispatcher, setSubscribers, hne] using h e he c

/-- The subscribers of a dispatcher that is copied would point to both. -/
theorem twoWay_copyDispatcher {original : ℕ} (h : TwoWay s) (hd : d ∉ s.dispatchers)
    (horiginal : original ∈ s.dispatchers) :
    TwoWay (newDispatcher s d (s.subscribers original)) ↔
      (∀ c, c ∉ s.subscribers original) ∧ ∀ c ∈ s.callbacks, (s.link c).value ≠ some d := by
  rw [twoWay_newDispatcher h hd]
  constructor
  · intro hset
    have hnone : ∀ c, c ∉ s.subscribers original := by
      intro c hc
      have hold := ((h original horiginal c).mp hc).2
      have hnew := ((hset c).mp hc).2
      exact hd (Option.some.inj (hnew.symm.trans hold) ▸ horiginal)
    exact ⟨hnone, fun c hc hlink => hnone c ((hset c).mpr ⟨hc, hlink⟩)⟩
  · rintro ⟨hnone, hlink⟩ c
    exact iff_of_false (hnone c) fun h => hlink c h.1 h.2

/-! ### `Add` and `Remove` -/

/-- Both sides are written for one dispatcher. -/
theorem twoWay_relink {subscribers : OrderedSet ℕ} {link : Link} (h : TwoWay s) (hc : c ∈ s.callbacks)
    (hothers : ∀ x, x ≠ c → (x ∈ subscribers ↔ x ∈ s.subscribers d))
    (hself : c ∈ subscribers ↔ link.value = some d)
    (hlink : ∀ e, e ≠ d → link.value ≠ some e) :
    TwoWay { s with
      subscribers := Function.update s.subscribers d subscribers
      link := Function.update s.link c link } ↔
        ∀ e ∈ s.dispatchers, (s.link c).value = some e → e = d := by
  constructor
  · intro h' e he hold
    by_contra hne
    have hmem : c ∈ s.subscribers e := (h e he c).mpr ⟨hc, hold⟩
    have hnew := (h' e he c).mp (by simpa [hne] using hmem)
    exact hlink e hne (by simpa using hnew.2)
  · intro hkeep e he x
    by_cases hx : x = c
    · subst hx
      by_cases hne : e = d
      · subst hne
        simpa [hc] using hself
      · have hout : x ∉ s.subscribers e := fun hmem => hne (hkeep e he ((h e he x).mp hmem).2)
        simp [hne, hout, hlink e hne]
    · by_cases hne : e = d
      · subst hne
        simpa [hx] using (hothers x hx).trans (h e he x)
      · simpa [hx, hne] using h e he x

theorem twoWay_add (h : TwoWay s) (hc : c ∈ s.callbacks) :
    TwoWay (add s d c) ↔ ∀ e ∈ s.dispatchers, (s.link c).value = some e → e = d := by
  rw [add_live hc]
  refine twoWay_relink h hc (fun x hx => ?_) ?_ (fun e hne => ?_)
  · simp [hx]
  · simp [Link.value]
  · simpa [Link.value] using Ne.symm hne

theorem twoWay_remove (h : TwoWay s) (hc : c ∈ s.callbacks) :
    TwoWay (remove s d c) ↔ ∀ e ∈ s.dispatchers, (s.link c).value = some e → e = d := by
  rw [remove_live hc]
  refine twoWay_relink h hc (fun x hx => ?_) ?_ (fun e _ => nofun)
  · simp [hx]
  · simp [Link.value]

/-! ### Destructors -/

/-- `~Callback` that does not fault goes through a pointer to a dispatcher that is alive,
and is `Remove` there. -/
theorem destroyCallback_clean (h : (destroyCallback s c).fault = false) :
    ∃ d ∈ s.dispatchers, (s.link c).value = some d ∧
      destroyCallback s c = {remove s d c with callbacks := s.callbacks.erase c} := by
  unfold destroyCallback at h ⊢
  split at h
  case h_1 d hvalue =>
    split at h
    case isTrue hd => exact ⟨d, hd, hvalue, by rw [if_pos hd]⟩
    case isFalse => cases h
  case h_2 => cases h

theorem twoWay_destroyCallback (h : TwoWay s) (hc : c ∈ s.callbacks)
    (hclean : (destroyCallback s c).fault = false) : TwoWay (destroyCallback s c) := by
  obtain ⟨d, -, hvalue, heq⟩ := destroyCallback_clean hclean
  have hremove : TwoWay (remove s d c) :=
    (twoWay_remove h hc).mpr fun e _ hold => Option.some.inj (hold.symm.trans hvalue)
  rw [heq]
  rw [remove_live hc] at hremove ⊢
  intro e he x
  have hx := hremove e he x
  by_cases hxc : x = c
  · subst hxc
    simpa [Link.value] using hx
  · simpa [hxc] using hx

/-- Nobody but its own subscribers points to a dispatcher. -/
theorem twoWay_destroyDispatcher (h : TwoWay s) (hd : d ∈ s.dispatchers) :
    TwoWay (destroyDispatcher s d) := by
  rw [destroyDispatcher_eq]
  intro e he x
  obtain ⟨hne, he⟩ := Finset.mem_erase.mp he
  have hx := h e he x
  by_cases hmem : x ∈ s.subscribers d
  · have hout : x ∉ s.subscribers e := fun hmem' => hne (h.unique he hd hmem' hmem)
    simp [hout, hmem, h.subscribers_live hd hmem, Link.value]
  · simpa [hmem] using hx

theorem notify_same (h : TwoWay s) (hd : d ∈ s.dispatchers) : notify s d = s :=
  notify_live fun _ => h.subscribers_live hd

/-! ### Steps and runs -/

theorem twoWay_step (h : TwoWay s) (hclean : Clean s l) (hs : step s l = some s') :
    TwoWay s' ↔ Keeps s l := by
  obtain ⟨-, hpossible, rfl⟩ := step_cases hs
  cases l with
  | callback c stale => exact twoWay_newCallback h hpossible
  | copyCallback c original => exact twoWay_newCallback h hpossible.1
  | dispatcher d =>
    refine (twoWay_newDispatcher h hpossible).trans ⟨fun hset c hc hlink => ?_, fun hlink c => ?_⟩
    · exact OrderedSet.not_mem_empty ((hset c).mpr ⟨hc, hlink⟩)
    · exact iff_of_false OrderedSet.not_mem_empty fun hc => hlink c hc.1 hc.2
  | copyDispatcher d original => exact twoWay_copyDispatcher h hpossible.1 hpossible.2
  | add d c => exact twoWay_add h hpossible.2
  | remove d c => exact twoWay_remove h hpossible.2
  | notify d =>
    rw [after, notify_same h hpossible]
    exact iff_of_true h trivial
  | destroyCallback c => exact iff_of_true (twoWay_destroyCallback h hpossible hclean) trivial
  | destroyDispatcher d => exact iff_of_true (twoWay_destroyDispatcher h hpossible) trivial

/-- `Notify` calls nobody that is not alive. -/
theorem fault_step (h : TwoWay s) (hclean : Clean s l) (hs : step s l = some s') :
    s'.fault = false := by
  obtain ⟨hfault, hpossible, rfl⟩ := step_cases hs
  cases l with
  | add d c => exact (congrArg State.fault (add_live hpossible.2)).trans hfault
  | remove d c => exact (congrArg State.fault (remove_live hpossible.2)).trans hfault
  | notify d => exact (congrArg State.fault (notify_same h hpossible)).trans hfault
  | destroyCallback c => exact hclean
  | destroyDispatcher d => exact hclean
  | _ => exact hfault

theorem twoWay_init : TwoWay init := fun _ hd => absurd hd (Finset.notMem_empty _)

/-- **The two sides agree.** In a run whose destructors do not fault, they agree in every
state exactly if every step keeps to `Keeps`; and then no dispatcher has a subscriber that
is not alive, and none was called. -/
theorem links_two_way {trace : List (State × Label)} {s : State} (run : machine.Run init trace s)
    (hclean : Machine.Meets Clean trace) :
    ((∀ e ∈ trace, TwoWay e.1) ∧ TwoWay s ↔ Machine.Meets Keeps trace) ∧
      (Machine.Meets Keeps trace → s.fault = false ∧
        ∀ d ∈ s.dispatchers, ∀ c ∈ s.subscribers d, c ∈ s.callbacks) := by
  have hiff : ((∀ e ∈ trace, TwoWay e.1) ∧ TwoWay s ↔ Machine.Meets Keeps trace) ∧
      (Machine.Meets Keeps trace → s.fault = false) := by
    induction run with
    | nil => exact ⟨iff_of_true ⟨fun _ => nofun, twoWay_init⟩ Machine.meets_nil, fun _ => rfl⟩
    | @snoc t u trace l _ hu ih =>
      obtain ⟨htrace, hlast⟩ := Machine.meets_snoc.mp hclean
      obtain ⟨ih, -⟩ := ih htrace
      rw [Machine.meets_snoc, List.forall_mem_append, List.forall_mem_singleton]
      refine ⟨⟨fun ⟨hbefore, hlater⟩ => ?_, fun ⟨hbefore, hlater⟩ => ?_⟩, fun ⟨hbefore, _⟩ => ?_⟩
      · exact ⟨ih.mp hbefore, (twoWay_step hbefore.2 hlast hu).mp hlater⟩
      · have hold := ih.mpr hbefore
        exact ⟨hold, (twoWay_step hold.2 hlast hu).mpr hlater⟩
      · exact fault_step (ih.mpr hbefore).2 hlast hu
  exact ⟨hiff.1, fun hkeeps => ⟨hiff.2 hkeeps, fun d hd c => (hiff.1.mpr hkeeps).2.subscribers_live hd⟩⟩

instance (s : State) : (l : Label) → Decidable (Clean s l)
  | .destroyCallback c => inferInstanceAs (Decidable ((destroyCallback s c).fault = false))
  | .destroyDispatcher d => inferInstanceAs (Decidable ((destroyDispatcher s d).fault = false))
  | .callback _ _ | .copyCallback _ _ | .dispatcher _ | .copyDispatcher _ _ | .add _ _ | .remove _ _
  | .notify _ => isTrue trivial

/-- Subscribed, unsubscribed and subscribed again, and the dispatcher destroyed first. -/
theorem links_two_way_again : ∃ trace s, machine.Run init trace s ∧ s.link 5 = .null ∧
    ((∀ e ∈ trace, TwoWay e.1) ∧ TwoWay s ↔ Machine.Meets Keeps trace) := by
  obtain ⟨trace, s, run, h⟩ := machine.run_of_replay init
    [.dispatcher 1, .callback 5 none, .add 1 5, .remove 1 5, .add 1 5, .notify 1, .destroyDispatcher 1]
    (fun e => decide (Machine.Meets Clean e.1 ∧ e.2.link 5 = .null)) (by decide +kernel)
  obtain ⟨hclean, hnull⟩ := of_decide_eq_true h
  exact ⟨trace, s, run, hnull, (links_two_way run hclean).1⟩

/-- A callback is added to two dispatchers and destroyed: the first one still has it, and
its next `Notify` would call it. -/
theorem links_two_dispatchers : ∃ trace s, machine.Run init trace s ∧ Machine.Meets Clean trace ∧
    ¬TwoWay s ∧ 1 ∈ s.dispatchers ∧ 5 ∈ s.subscribers 1 ∧ 5 ∉ s.callbacks ∧
    (notify s 1).fault = true := by
  obtain ⟨trace, s, run, h⟩ := machine.run_of_replay init
    [.dispatcher 1, .dispatcher 2, .callback 5 none, .add 1 5, .add 2 5, .destroyCallback 5]
    (fun e => decide (Machine.Meets Clean e.1 ∧ 1 ∈ e.2.dispatchers ∧ 5 ∈ e.2.subscribers 1 ∧
      5 ∉ e.2.callbacks ∧ (notify e.2 1).fault = true)) (by decide +kernel)
  obtain ⟨hclean, hd, hc, hdead, hfault⟩ := of_decide_eq_true h
  exact ⟨trace, s, run, hclean, fun h => hdead (h.subscribers_live hd hc), hd, hc, hdead, hfault⟩

end PrivateCloud.Observer
