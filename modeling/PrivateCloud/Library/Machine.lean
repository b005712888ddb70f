import Mathlib.Data.List.Basic
import Mathlib.Tactic.Common

/-! Machines and their runs.

A machine is a start state and a partial step on labels. Every choice a schedule
makes (which thread moves, what a peer answers, what a read of freed memory sees)
is in the label, so a step is a function and a finite run can be replayed by
evaluation. A `Run` keeps the states it left with the labels it took, and a
`Rule` on these pairs is how an assumption about the environment is stated: a
property of all runs whose every step meets a rule.

The ways a run is used are one theorem each: an invariant (`invariant`), a simulation
by a function of the labels (`simulation`) or by another machine, step for step
(`refines`), a bound on its length (`bounded`) or on the number of certain steps
(`counted`), what a component took part in (`project`), and the replay of a list of
labels (`drive_run`). -/
namespace PrivateCloud

/-- `step s l = none`: the label is not possible in `s`. -/
structure Machine (S L : Type*) where
  init : S
  step : S → L → Option S

namespace Machine
variable {S L A T K : Type*} (M : Machine S L)

/-- A run, with the states it left and the labels it took, oldest first. -/
inductive Run (s : S) : List (S × L) → S → Prop where
  | nil : Run s [] s
  | snoc {t u : S} {trace : List (S × L)} {l : L} :
      Run s trace t → M.step t l = some u → Run s (trace ++ [(t, l)]) u

/-- Every step of the trace meets the rule, in the state it was taken from. -/
def Meets (rule : S → L → Prop) (trace : List (S × L)) : Prop := ∀ e ∈ trace, rule e.1 e.2

theorem meets_snoc {rule : S → L → Prop} {trace : List (S × L)} {s : S} {l : L} :
    Meets rule (trace ++ [(s, l)]) ↔ Meets rule trace ∧ rule s l := by
  simp only [Meets, List.forall_mem_append, List.forall_mem_singleton]

theorem meets_nil {rule : S → L → Prop} : Meets rule ([] : List (S × L)) :=
  fun _ h => nomatch h

instance (rule : S → L → Prop) [∀ s l, Decidable (rule s l)] (trace : List (S × L)) :
    Decidable (Meets rule trace) :=
  inferInstanceAs (Decidable (∀ e ∈ trace, rule e.1 e.2))

variable {M}

/-- **Invariants.** What holds at the start and survives every step that meets the
rule holds at the end of every run whose steps meet it. -/
theorem Run.invariant {P : S → Prop} {r : S → L → Prop} {s t : S} {trace : List (S × L)}
    (run : M.Run s trace t) (hs : P s)
    (hstep : ∀ t l u, P t → r t l → M.step t l = some u → P u)
    (h : Meets r trace) : P t := by
  induction run with
  | nil => exact hs
  | snoc _ hu ih =>
    obtain ⟨htrace, hlast⟩ := meets_snoc.mp h
    exact hstep _ _ _ (ih htrace) hlast hu

/-- **Simulation.** An abstract state that is a function of the labels taken stays
related to the concrete one. -/
theorem Run.simulation {R : S → A → Prop} {r : S → L → Prop} {next : A → L → A} {s t : S} {a : A}
    {trace : List (S × L)} (run : M.Run s trace t) (hs : R s a)
    (hstep : ∀ t l u b, R t b → r t l → M.step t l = some u → R u (next b l))
    (h : Meets r trace) : R t ((trace.map Prod.snd).foldl next a) := by
  induction run with
  | nil => exact hs
  | snoc _ hu ih =>
    obtain ⟨htrace, hlast⟩ := meets_snoc.mp h
    rw [List.map_append, List.foldl_append]
    exact hstep _ _ _ _ (ih htrace) hlast hu

/-- **Variants.** Steps that do not count leave a measure no greater, those that do lower it:
no run has more of them than the measure was at its start. -/
theorem Run.counted {P : S → Prop} {r : S → L → Prop} {m : S → ℕ} (counts : L → Bool) {s t : S}
    {trace : List (S × L)} (run : M.Run s trace t) (hs : P s)
    (hstep : ∀ t l u, P t → r t l → M.step t l = some u → P u ∧ m u + (counts l).toNat ≤ m t)
    (h : Meets r trace) : P t ∧ m t + trace.countP (fun e => counts e.2) ≤ m s := by
  induction run with
  | nil => exact ⟨hs, Nat.le_refl _⟩
  | @snoc t u trace l _ hu ih =>
    obtain ⟨htrace, hlast⟩ := meets_snoc.mp h
    obtain ⟨ht, hle⟩ := ih htrace
    obtain ⟨hu', hlower⟩ := hstep _ _ _ ht hlast hu
    have hlast : [(t, l)].countP (fun e => counts e.2) = (counts l).toNat := by
      cases hl : counts l <;> simp [hl]
    rw [List.countP_append, hlast]
    exact ⟨hu', by omega⟩

/-- Where all steps count, none is longer. -/
theorem Run.bounded {P : S → Prop} {r : S → L → Prop} {m : S → ℕ} {s t : S} {trace : List (S × L)}
    (run : M.Run s trace t) (hs : P s)
    (hstep : ∀ t l u, P t → r t l → M.step t l = some u → P u ∧ m u < m t)
    (h : Meets r trace) : P t ∧ m t + trace.length ≤ m s := by
  have hbound := run.counted (fun _ => true) hs hstep h
  rwa [List.countP_true] at hbound

theorem Run.cons {s t u : S} {l : L} {trace : List (S × L)} (hs : M.step s l = some t)
    (run : M.Run t trace u) : M.Run s ((s, l) :: trace) u := by
  induction run with
  | nil => exact Run.snoc Run.nil hs
  | snoc _ hu ih => exact Run.snoc ih hu

theorem Run.append {s t u : S} {trace rest : List (S × L)} (run : M.Run s trace t)
    (run' : M.Run t rest u) :
    M.Run s (trace ++ rest) u := by
  induction run' with
  | nil => rwa [List.append_nil]
  | snoc _ hu ih =>
    rw [← List.append_assoc]
    exact ih.snoc hu

/-- A run passes through the state before any of its steps. -/
theorem Run.split {s u : S} {trace : List (S × L)} (run : M.Run s trace u) {e : S × L}
    (he : e ∈ trace) : ∃ before after, trace = before ++ e :: after ∧ M.Run s before e.1 ∧
      ∃ t, M.step e.1 e.2 = some t ∧ M.Run t after u := by
  induction run with
  | nil => cases he
  | @snoc t u trace l run' hu ih =>
    rcases List.mem_append.mp he with he | he
    · obtain ⟨before, after, rfl, hbefore, t', ht', hafter⟩ := ih he
      exact ⟨before, after ++ [(t, l)], by simp, hbefore, t', ht', hafter.snoc hu⟩
    · obtain rfl := List.mem_singleton.mp he
      exact ⟨trace, [], rfl, run', u, hu, Run.nil⟩

/-! ### Machines made of machines

A step of the whole is a step of a component or leaves it alone, so what a component took
part in of a run is a run of the component, and all that holds of its runs holds of it. -/

/-- A step that may not concern the component. -/
def maybe (step : S → L → Option S) (s : S) : Option L → Option S
  | some l => step s l
  | none => some s

/-- What a component took part in: its own states and its own labels. -/
def project (part : S → T) (role : S → L → Option K) (trace : List (S × L)) : List (T × K) :=
  trace.filterMap fun e => (role e.1 e.2).map fun k => (part e.1, k)

section Components
variable {N : Machine T K} {part : S → T} {role : S → L → Option K}

theorem Run.project (part : S → T) (role : S → L → Option K) {s t : S} {trace : List (S × L)}
    (run : M.Run s trace t)
    (hstep : ∀ t l u, M.step t l = some u → maybe N.step (part t) (role t l) = some (part u)) :
    N.Run (part s) (project part role trace) (part t) := by
  induction run with
  | nil => exact Run.nil
  | @snoc t u trace l _ hu ih =>
    have hmaybe := hstep t l u hu
    rw [Machine.project, List.filterMap_append, ← Machine.project]
    cases hrole : role t l with
    | none =>
      rw [hrole] at hmaybe
      rw [← Option.some.inj hmaybe]
      simpa [hrole] using ih
    | some k =>
      rw [hrole] at hmaybe
      simpa [hrole] using ih.snoc hmaybe

/-- What the steps of a run are, by their roles. -/
def roles (role : S → L → Option K) (trace : List (S × L)) : List K :=
  trace.filterMap fun e => role e.1 e.2

theorem roles_snoc (role : S → L → Option K) (trace : List (S × L)) (t : S) (l : L) :
    roles role (trace ++ [(t, l)]) = roles role trace ++ (role t l).toList := by
  rw [roles, List.filterMap_append]
  cases hrole : role t l with
  | none => simp [roles, hrole]
  | some k => simp [roles, hrole]

/-- **Refinement.** Every step that meets the rule is of another machine what its role
says, or nothing, and so the run is one of the other machine, whose steps are the roles in the
trace. What relates the two may look back on the trace. -/
theorem Run.refines (role : S → L → Option K) {R : List (S × L) → S → T → Prop} {r : S → L → Prop}
    {s t : S} {a : T} {trace : List (S × L)} (run : M.Run s trace t) (hs : R [] s a)
    (hstep : ∀ trace t l u b, R trace t b → r t l → M.step t l = some u →
      ∃ c, maybe N.step b (role t l) = some c ∧ R (trace ++ [(t, l)]) u c)
    (h : Meets r trace) :
    ∃ rest b, N.Run a rest b ∧ rest.map Prod.snd = roles role trace ∧ R trace t b := by
  induction run with
  | nil => exact ⟨[], a, Run.nil, rfl, hs⟩
  | @snoc t u trace l _ hu ih =>
    obtain ⟨htrace, hlast⟩ := meets_snoc.mp h
    obtain ⟨rest, b, run', hrest, hb⟩ := ih htrace
    obtain ⟨c, hmaybe, hc⟩ := hstep trace t l u b hb hlast hu
    rw [roles_snoc]
    cases hrole : role t l with
    | none =>
      rw [hrole] at hmaybe
      obtain rfl := Option.some.inj hmaybe
      exact ⟨rest, b, run', by simpa using hrest, hc⟩
    | some k =>
      rw [hrole] at hmaybe
      exact ⟨rest ++ [(b, k)], c, run'.snoc hmaybe, by simp [hrest], hc⟩

/-- A rule for a component, met by the whole. -/
theorem meets_project {rule : T → K → Prop} {trace : List (S × L)}
    (h : Meets (fun s l => ∀ k ∈ role s l, rule (part s) k) trace) :
    Meets rule (project part role trace) := by
  intro e he
  obtain ⟨x, hx, hmap⟩ := List.mem_filterMap.mp he
  obtain ⟨k, hk, rfl⟩ := Option.map_eq_some_iff.mp hmap
  exact h x hx k hk

end Components

variable (M)

/-- Replay a list of labels, each filled in from the state that it is taken in, keeping the
states left. -/
def drive (fill : S → L → L) : S → List L → Option (List (S × L) × S)
  | s, [] => some ([], s)
  | s, l :: rest =>
    match M.step s (fill s l) with
    | none => none
    | some t =>
      match drive fill t rest with
      | none => none
      | some (trace, u) => some ((s, fill s l) :: trace, u)

/-- Replay a list of labels as they are. -/
def replay (s : S) (labels : List L) : Option (List (S × L) × S) := M.drive (fun _ l => l) s labels

variable {M}

/-- What replays is a run, and meets the rules that all that is filled in meets. -/
theorem drive_run {fill : S → L → L} {s t : S} {labels : List L} {trace : List (S × L)}
    (h : M.drive fill s labels = some (trace, t)) :
    M.Run s trace t ∧ ∀ rule : S → L → Prop, (∀ s l, rule s (fill s l)) → Meets rule trace := by
  induction labels generalizing s trace with
  | nil =>
    simp only [drive, Option.some.injEq, Prod.mk.injEq] at h
    obtain ⟨rfl, rfl⟩ := h
    exact ⟨Run.nil, fun _ _ => meets_nil⟩
  | cons l rest ih =>
    simp only [drive] at h
    cases hs : M.step s (fill s l) with
    | none => simp [hs] at h
    | some t' =>
      cases hr : M.drive fill t' rest with
      | none => simp [hs, hr] at h
      | some p =>
        simp only [hs, hr, Option.some.injEq, Prod.mk.injEq] at h
        obtain ⟨rfl, rfl⟩ := h
        obtain ⟨run, hmeets⟩ := ih hr
        exact ⟨Run.cons hs run, fun rule hrule =>
          List.forall_mem_cons.mpr ⟨hrule s l, hmeets rule hrule⟩⟩

variable (M) in
/-- A property of a replayed run, found by evaluation. -/
theorem run_of_drive (fill : S → L → L) (s : S) (labels : List L) (good : List (S × L) × S → Bool)
    (h : (M.drive fill s labels).any good = true) :
    ∃ trace t, M.Run s trace t ∧ (∀ rule : S → L → Prop, (∀ s l, rule s (fill s l)) → Meets rule trace) ∧
      good (trace, t) = true := by
  cases hr : M.drive fill s labels with
  | none => simp [hr] at h
  | some p =>
    obtain ⟨run, hmeets⟩ := drive_run hr
    exact ⟨p.1, p.2, run, hmeets, by simpa [hr] using h⟩

variable (M) in
theorem run_of_replay (s : S) (labels : List L) (good : List (S × L) × S → Bool)
    (h : (M.replay s labels).any good = true) :
    ∃ trace t, M.Run s trace t ∧ good (trace, t) = true := by
  obtain ⟨trace, t, run, -, hgood⟩ := M.run_of_drive (fun _ l => l) s labels good h
  exact ⟨trace, t, run, hgood⟩

end Machine
end PrivateCloud
