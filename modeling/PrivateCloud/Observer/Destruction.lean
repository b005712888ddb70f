import PrivateCloud.Observer.Observer

/-! The order in which callbacks and dispatchers are destroyed.

`~Callback` calls `Remove` through its pointer, whatever it is. It is the pointer to a live
dispatcher only while the callback is subscribed, which the history of the calls tells
without looking at a pointer (`subscribed`): a callback that was never added, or removed,
or whose dispatcher was destroyed first, is destroyed through a pointer that was not
written, or through NULL (`destruction_order`). -/
namespace PrivateCloud.Observer
variable {s s' : State} {l : Label} {c d : ℕ}

/-- Nobody is added to a second dispatcher, and nothing is copied. -/
def Single (s : State) : Label → Prop
  | .add d c => ∀ e ∈ s.dispatchers, c ∈ s.subscribers e → e = d
  | .copyCallback _ _ | .copyDispatcher _ _ => False
  | _ => True

/-- `~Callback` goes through a pointer to a dispatcher that is alive. -/
def Safe (s : State) : Label → Prop
  | .destroyCallback c => ∃ d ∈ s.dispatchers, s.link c = .to d
  | _ => True

/-! ### The history -/

/-- Where each callback is subscribed after one more call. -/
def next (subscribed : ℕ → Option ℕ) : Label → ℕ → Option ℕ
  | .callback c _ | .remove _ c => Function.update subscribed c none
  | .add d c => Function.update subscribed c (some d)
  | .destroyDispatcher d => fun c => if subscribed c = some d then none else subscribed c
  | _ => subscribed

/-- The dispatcher of a callback's last `Add`, unless there was a `Remove` since, or the
dispatcher was destroyed. -/
def subscribed (labels : List Label) : ℕ → Option ℕ := labels.foldl next fun _ => none

/-- A callback that is destroyed is subscribed. -/
def isGuarded (subscribed : ℕ → Option ℕ) : Label → Bool
  | .destroyCallback c => (subscribed c).isSome
  | _ => true

/-- Every callback that is destroyed is subscribed when it is. -/
def Guarded (labels : List Label) : Prop :=
  ∀ before l after, labels = before ++ l :: after → isGuarded (subscribed before) l = true

theorem guarded_snoc {labels : List Label} :
    Guarded (labels ++ [l]) ↔ Guarded labels ∧ isGuarded (subscribed labels) l = true := by
  constructor
  · intro h
    refine ⟨fun before l' after heq => ?_, h labels l [] rfl⟩
    exact h before l' (after ++ [l]) (by rw [heq, List.append_assoc, List.cons_append])
  · rintro ⟨h, hlast⟩ before l' after heq
    rcases List.eq_nil_or_concat after with rfl | ⟨after, l'', rfl⟩
    · obtain ⟨rfl, hl⟩ := List.append_inj' heq rfl
      obtain ⟨rfl, -⟩ := List.cons.inj hl
      exact hlast
    · rw [List.concat_eq_append, ← List.cons_append, ← List.append_assoc] at heq
      obtain ⟨rfl, -⟩ := List.append_inj' heq rfl
      exact h before l' after rfl

/-! ### What the history says -/

/-- A callback is subscribed where the history says, and points there; one that is not
points nowhere. -/
structure Agrees (s : State) (h : ℕ → Option ℕ) : Prop where
  single : ∀ d ∈ s.dispatchers, ∀ e ∈ s.dispatchers, ∀ c,
    c ∈ s.subscribers d → c ∈ s.subscribers e → d = e
  some : ∀ c ∈ s.callbacks, ∀ d, h c = some d →
    d ∈ s.dispatchers ∧ c ∈ s.subscribers d ∧ s.link c = .to d
  none : ∀ c ∈ s.callbacks, h c = none → ∀ d, s.link c ≠ .to d

variable {h : ℕ → Option ℕ}

theorem agrees_init : Agrees init fun _ => none where
  single := fun _ hd => absurd hd (Finset.notMem_empty _)
  some := fun _ _ _ => nofun
  none := fun _ hc => absurd hc (Finset.notMem_empty _)

/-- Going through the pointer is safe exactly if the history says so. -/
theorem safe_iff (hagrees : Agrees s h) (hpossible : Possible s l) :
    Safe s l ↔ isGuarded h l = true := by
  cases l with
  | destroyCallback c =>
    cases hc : h c with
    | none =>
      have hlink := hagrees.none c hpossible hc
      exact iff_of_false (fun ⟨d, _, hto⟩ => hlink d hto) (by simp [isGuarded, hc])
    | some d =>
      obtain ⟨hd, -, hto⟩ := hagrees.some c hpossible d hc
      exact iff_of_true ⟨d, hd, hto⟩ (by simp [isGuarded, hc])
  | _ => exact iff_of_true trivial rfl

/-- One callback is written, and everything else stays. -/
theorem agrees_relink {now : Option ℕ} (hagrees : Agrees s h)
    (hdispatchers : s'.dispatchers = s.dispatchers)
    (hcallbacks : ∀ x, x ≠ c → x ∈ s'.callbacks → x ∈ s.callbacks)
    (hothers : ∀ e x, x ≠ c → (x ∈ s'.subscribers e ↔ x ∈ s.subscribers e))
    (hlink : ∀ x, x ≠ c → s'.link x = s.link x)
    (hsingle : ∀ d ∈ s.dispatchers, ∀ e ∈ s.dispatchers,
      c ∈ s'.subscribers d → c ∈ s'.subscribers e → d = e)
    (hsome : ∀ d, now = some d → d ∈ s.dispatchers ∧ c ∈ s'.subscribers d ∧ s'.link c = .to d)
    (hnone : now = none → ∀ d, s'.link c ≠ .to d) : Agrees s' (Function.update h c now) := by
  refine ⟨fun d hd e he x hxd hxe => ?_, fun x hx d hxd => ?_, fun x hx hxnone d => ?_⟩
  · rw [hdispatchers] at hd he
    by_cases hxc : x = c
    · subst hxc
      exact hsingle d hd e he hxd hxe
    · exact hagrees.single d hd e he x ((hothers d x hxc).mp hxd) ((hothers e x hxc).mp hxe)
  · rw [hdispatchers]
    by_cases hxc : x = c
    · subst hxc
      exact hsome d (by simpa using hxd)
    · obtain ⟨hd, hmem, hto⟩ := hagrees.some x (hcallbacks x hxc hx) d (by simpa [hxc] using hxd)
      exact ⟨hd, (hothers d x hxc).mpr hmem, (hlink x hxc).trans hto⟩
  · by_cases hxc : x = c
    · subst hxc
      exact hnone (by simpa using hxnone) d
    · rw [hlink x hxc]
      exact hagrees.none x (hcallbacks x hxc hx) (by simpa [hxc] using hxnone) d

theorem agrees_newCallback {stale : Option ℕ} (hagrees : Agrees s h) :
    Agrees (newCallback s c (.unset stale)) (Function.update h c none) := by
  refine agrees_relink hagrees rfl (fun x hx hmem => ?_) (fun _ _ _ => Iff.rfl) (fun x hx => ?_)
    (fun d hd e he => hagrees.single d hd e he c) (fun _ => nofun) (fun _ d => ?_)
  · exact Finset.mem_of_mem_insert_of_ne hmem hx
  · exact Function.update_of_ne hx _ _
  · simp [newCallback]

theorem agrees_newDispatcher (hagrees : Agrees s h) (hd : d ∉ s.dispatchers) :
    Agrees (newDispatcher s d .empty) h where
  single := by
    intro e he f hf c hce hcf
    have hne : e ≠ d := fun heq => by simp [newDispatcher, setSubscribers, heq] at hce
    have hnf : f ≠ d := fun heq => by simp [newDispatcher, setSubscribers, heq] at hcf
    refine hagrees.single e (Finset.mem_of_mem_insert_of_ne he hne) f
      (Finset.mem_of_mem_insert_of_ne hf hnf) c ?_ ?_
    · simpa [newDispatcher, setSubscribers, hne] using hce
    · simpa [newDispatcher, setSubscribers, hnf] using hcf
  some := by
    intro x hx e hsome
    obtain ⟨he, hmem, hto⟩ := hagrees.some x hx e hsome
    have hne : e ≠ d := fun heq => hd (heq ▸ he)
    exact ⟨Finset.mem_insert_of_mem he, by simpa [newDispatcher, setSubscribers, hne] using hmem, hto⟩
  none := hagrees.none

theorem agrees_add (hagrees : Agrees s h) (hd : d ∈ s.dispatchers) (hc : c ∈ s.callbacks)
    (hsingle : ∀ e ∈ s.dispatchers, c ∈ s.subscribers e → e = d) :
    Agrees (add s d c) (Function.update h c (some d)) := by
  rw [add_live hc]
  -- The callback is in no set but the one of `d`.
  have honly : ∀ e ∈ s.dispatchers,
      c ∈ Function.update s.subscribers d ((s.subscribers d).insert c) e → e = d := by
    intro e he hmem
    by_contra hne
    exact hne (hsingle e he (by simpa [hne] using hmem))
  refine agrees_relink hagrees rfl (fun _ _ hx => hx) (fun e x hx => ?_)
    (fun x hx => Function.update_of_ne hx _ _) (fun e he f hf hce hcf => ?_) (fun e he => ?_) nofun
  · by_cases hed : e = d
    · subst hed
      simp [hx]
    · simp [hed]
  · exact (honly e he hce).trans (honly f hf hcf).symm
  · obtain rfl : d = e := Option.some.inj he
    simp [hd]

/-- `Remove` from whatever dispatcher. -/
theorem agrees_remove (hagrees : Agrees s h) (hc : c ∈ s.callbacks) :
    Agrees (remove s d c) (Function.update h c none) := by
  rw [remove_live hc]
  have hfewer : ∀ e x, x ∈ Function.update s.subscribers d ((s.subscribers d).erase c) e →
      x ∈ s.subscribers e := by
    intro e x hmem
    by_cases hed : e = d
    · subst hed
      exact (OrderedSet.mem_erase.mp (by simpa using hmem)).2
    · simpa [hed] using hmem
  refine agrees_relink hagrees rfl (fun _ _ hx => hx) (fun e x hx => ⟨hfewer e x, fun hmem => ?_⟩)
    (fun x hx => Function.update_of_ne hx _ _) (fun e he f hf hce hcf => ?_) (fun _ => nofun)
    (fun _ e => ?_)
  · by_cases hed : e = d
    · subst hed
      simpa [hx] using hmem
    · simpa [hed] using hmem
  · exact hagrees.single e he f hf c (hfewer e c hce) (hfewer f c hcf)
  · simp

/-- A callback that is not alive any more may be forgotten. -/
theorem agrees_forget (hagrees : Agrees s (Function.update h c none)) :
    Agrees {s with callbacks := s.callbacks.erase c} h where
  single := hagrees.single
  some := by
    intro x hx d hsome
    obtain ⟨hne, hx⟩ := Finset.mem_erase.mp hx
    exact hagrees.some x hx d (by simpa [hne] using hsome)
  none := by
    intro x hx hnone d
    obtain ⟨hne, hx⟩ := Finset.mem_erase.mp hx
    exact hagrees.none x hx (by simpa [hne] using hnone) d

theorem agrees_fault {fault : Bool} (hagrees : Agrees s h) : Agrees {s with fault := fault} h :=
  ⟨hagrees.single, hagrees.some, hagrees.none⟩

theorem agrees_destroyCallback (hagrees : Agrees s h) (hc : c ∈ s.callbacks) :
    Agrees (destroyCallback s c) h := by
  unfold destroyCallback
  split
  case h_1 d _ =>
    split
    case isTrue =>
      have hremove := agrees_forget (agrees_remove (d := d) hagrees hc)
      rw [remove_live hc] at hremove ⊢
      exact hremove
    case isFalse => exact agrees_fault hagrees
  case h_2 => exact agrees_fault hagrees

theorem agrees_destroyDispatcher (hagrees : Agrees s h) (hd : d ∈ s.dispatchers) :
    Agrees (destroyDispatcher s d) fun c => if h c = some d then none else h c := by
  rw [destroyDispatcher_eq]
  refine ⟨fun e he f hf => ?_, fun x hx e hsome => ?_, fun x hx hnone e => ?_⟩
  · exact hagrees.single e (Finset.mem_of_mem_erase he) f (Finset.mem_of_mem_erase hf)
  · split at hsome
    case isTrue => cases hsome
    case isFalse hne =>
      obtain ⟨he, hmem, hto⟩ := hagrees.some x hx e hsome
      have hed : e ≠ d := fun heq => hne (heq ▸ hsome)
      have hout : x ∉ s.subscribers d := fun hmem' => hed (hagrees.single e he d hd x hmem hmem')
      exact ⟨Finset.mem_erase.mpr ⟨hed, he⟩, hmem, by simp [hout, hto]⟩
  · dsimp only at hnone ⊢
    split at hnone
    case isTrue hsome =>
      have hmem := (hagrees.some x hx d hsome).2.1
      rw [if_pos ⟨hmem, hx⟩]
      exact nofun
    case isFalse =>
      split
      case isTrue => exact nofun
      case isFalse => exact hagrees.none x hx hnone e

/-! ### Runs -/

theorem agrees_step (hagrees : Agrees s h) (hsingle : Single s l) (hs : step s l = some s') :
    Agrees s' (next h l) := by
  obtain ⟨-, hpossible, rfl⟩ := step_cases hs
  cases l with
  | callback c stale => exact agrees_newCallback hagrees
  | copyCallback | copyDispatcher => exact absurd hsingle id
  | dispatcher d => exact agrees_newDispatcher hagrees hpossible
  | add d c => exact agrees_add hagrees hpossible.1 hpossible.2 hsingle
  | remove d c => exact agrees_remove hagrees hpossible.2
  | notify d =>
    rw [after, notify_eq]
    exact agrees_fault hagrees
  | destroyCallback c => exact agrees_destroyCallback hagrees hpossible
  | destroyDispatcher d => exact agrees_destroyDispatcher hagrees hpossible

theorem run_agrees {trace : List (State × Label)} (run : machine.Run init trace s)
    (hsingle : Machine.Meets Single trace) : Agrees s (subscribed (trace.map Prod.snd)) :=
  run.simulation agrees_init (fun _ _ _ _ hagrees hrule hs => agrees_step hagrees hrule hs) hsingle

/-- **When the order is free.** Where nobody is added to a second dispatcher, every
`~Callback` goes through a pointer to a live dispatcher exactly if every callback is
destroyed while it is subscribed. -/
theorem destruction_order {trace : List (State × Label)} {s : State} (run : machine.Run init trace s)
    (hsingle : Machine.Meets Single trace) :
    Machine.Meets Safe trace ↔ Guarded (trace.map Prod.snd) := by
  induction run with
  | nil => exact iff_of_true Machine.meets_nil fun before l after heq => by simp at heq
  | snoc run hs ih =>
    obtain ⟨htrace, hlast⟩ := Machine.meets_snoc.mp hsingle
    have hsafe := safe_iff (run_agrees run htrace) (step_cases hs).2.1
    rw [Machine.meets_snoc, ih htrace, hsafe, List.map_append, List.map_singleton, guarded_snoc]

instance (s : State) : (l : Label) → Decidable (Single s l)
  | .add d c => inferInstanceAs (Decidable (∀ e ∈ s.dispatchers, c ∈ s.subscribers e → e = d))
  | .copyCallback _ _ | .copyDispatcher _ _ => isFalse id
  | .callback _ _ | .dispatcher _ | .remove _ _ | .notify _ | .destroyCallback _
  | .destroyDispatcher _ => isTrue trivial

instance (s : State) : (l : Label) → Decidable (Safe s l)
  | .destroyCallback c => inferInstanceAs (Decidable (∃ d ∈ s.dispatchers, s.link c = .to d))
  | .callback _ _ | .copyCallback _ _ | .dispatcher _ | .copyDispatcher _ _ | .add _ _ | .remove _ _
  | .notify _ | .destroyDispatcher _ => isTrue trivial

/-- All callbacks die first, still subscribed. -/
theorem destruction_order_subscribed : ∃ trace s, machine.Run init trace s ∧
    Machine.Meets Safe trace ∧ Guarded (trace.map Prod.snd) ∧ s.callbacks = ∅ ∧ s.dispatchers = ∅ := by
  obtain ⟨trace, s, run, h⟩ := machine.run_of_replay init
    [.dispatcher 1, .callback 5 none, .add 1 5, .callback 6 none, .add 1 6, .notify 1,
      .destroyCallback 5, .destroyCallback 6, .destroyDispatcher 1]
    (fun e => decide (Machine.Meets Single e.1 ∧ Machine.Meets Safe e.1 ∧ e.2.callbacks = ∅ ∧
      e.2.dispatchers = ∅)) (by decide +kernel)
  obtain ⟨hsingle, hsafe, hcallbacks, hdispatchers⟩ := of_decide_eq_true h
  exact ⟨trace, s, run, hsafe, (destruction_order run hsingle).mp hsafe, hcallbacks, hdispatchers⟩

/-- Removed and destroyed: `~Callback` goes through the NULL that `Remove` has left. -/
theorem destruction_removed : ∃ trace s, machine.Run init trace s ∧ Machine.Meets Single trace ∧
    ¬Machine.Meets Safe trace ∧ s.link 5 = .null ∧ s.fault = true := by
  obtain ⟨trace, s, run, h⟩ := machine.run_of_replay init
    [.dispatcher 1, .callback 5 none, .add 1 5, .remove 1 5, .destroyCallback 5]
    (fun e => decide (Machine.Meets Single e.1 ∧ ¬Machine.Meets Safe e.1 ∧ e.2.link 5 = .null ∧
      e.2.fault = true)) (by decide +kernel)
  exact ⟨trace, s, run, of_decide_eq_true h⟩

end PrivateCloud.Observer
