import Mathlib.Data.List.Nodup
import Mathlib.Logic.Function.Basic
import PrivateCloud.Library.Machine

/-! Linearizability.

An object is what its operations do to it one at a time. Callers that share it see when a
call is made and when it returns, and with what; what they see is linearizable where the
calls have an order that is legal for the object, gives each what it returned, and has
every call that returned before the ones made later (`Linearizes`).

Such an order is found by commit points: every call takes effect in one moment between
being made and returning. `Moves` is the object with the calls on it, of which each is in
one phase; the order of the commits will do (`Moves.linearizes`), and a machine whose
steps are such moves is linearizable in all its runs (`linearizes_of_run`). -/
namespace PrivateCloud

structure Object (St Op Res : Type*) where
  init : St
  /-- The operation may return this and leave that. -/
  does : St → Op → Res → St → Prop

namespace Object

/-- A call as its caller sees it. -/
inductive Event (ι Op Res : Type*) where
  | invoke (call : ι) (op : Op)
  | respond (call : ι) (res : Res)

/-- A call that took effect. -/
structure Commit (ι Op Res : Type*) where
  call : ι
  op : Op
  res : Res

inductive Phase (Op Res : Type*) where
  /-- Not made yet. -/
  | idle
  | invoked (op : Op)
  | committed (res : Res)
  | returned

inductive Mark (ι Op Res : Type*) where
  | event (e : Event ι Op Res)
  | commit (c : Commit ι Op Res)

variable {ι St Op Res : Type*}

def Mark.event? : Mark ι Op Res → Option (Event ι Op Res)
  | .event e => some e
  | .commit _ => none

def Mark.commit? : Mark ι Op Res → Option (Commit ι Op Res)
  | .event _ => none
  | .commit c => some c

/-- What the callers see. -/
def history (marks : List (Mark ι Op Res)) : List (Event ι Op Res) := marks.filterMap Mark.event?

/-- The calls in the order in which they took effect. -/
def order (marks : List (Mark ι Op Res)) : List (Commit ι Op Res) := marks.filterMap Mark.commit?

def Event.call : Event ι Op Res → ι
  | .invoke call _ => call
  | .respond call _ => call

def Event.invoked? : Event ι Op Res → Option ι
  | .invoke call _ => some call
  | .respond _ _ => none

def Event.responded? : Event ι Op Res → Option ι
  | .invoke _ _ => none
  | .respond call _ => some call

/-- Calls are made once, and return once, after they were made. -/
structure WellFormed (history : List (Event ι Op Res)) : Prop where
  invoked : (history.filterMap Event.invoked?).Nodup
  responded : (history.filterMap Event.responded?).Nodup
  after : ∀ call res, .respond call res ∈ history →
    ∃ op, [.invoke call op, .respond call res].Sublist history

/-- One operation after the other, from the start. -/
inductive Legal (O : Object St Op Res) : List (Commit ι Op Res) → St → Prop where
  | nil : Legal O [] O.init
  | snoc {order : List (Commit ι Op Res)} {s t : St} {c : Commit ι Op Res} :
      Legal O order s → O.does s c.op c.res t → Legal O (order ++ [c]) t

/-- The order explains the history, and leaves the object like this. Calls that have not
returned may be in it or not. -/
structure Linearizes (O : Object St Op Res) (history : List (Event ι Op Res))
    (order : List (Commit ι Op Res)) (s : St) : Prop where
  wellFormed : WellFormed history
  legal : O.Legal order s
  once : (order.map Commit.call).Nodup
  invoked : ∀ c ∈ order, .invoke c.call c.op ∈ history
  answered : ∀ call res, .respond call res ∈ history → ∃ op, ⟨call, op, res⟩ ∈ order
  /-- A call that returned before another one was made comes first. -/
  realTime : ∀ c ∈ order, ∀ c' ∈ order, ∀ res op,
    [.respond c.call res, .invoke c'.call op].Sublist history → [c, c'].Sublist order

/-! ### Commit points -/

variable [DecidableEq ι]

/-- The object with the calls on it, and what became of both. -/
inductive Moves (O : Object St Op Res) (p : ι → Phase Op Res) (s : St) :
    List (Mark ι Op Res) → (ι → Phase Op Res) → St → Prop where
  | nil : Moves O p s [] p s
  | invoke {marks : List (Mark ι Op Res)} {q : ι → Phase Op Res} {t : St} {call : ι} {op : Op} :
      Moves O p s marks q t → q call = .idle →
      Moves O p s (marks ++ [.event (.invoke call op)]) (Function.update q call (.invoked op)) t
  | commit {marks : List (Mark ι Op Res)} {q : ι → Phase Op Res} {t u : St} {call : ι} {op : Op}
      {res : Res} :
      Moves O p s marks q t → q call = .invoked op → O.does t op res u →
      Moves O p s (marks ++ [.commit ⟨call, op, res⟩]) (Function.update q call (.committed res)) u
  | respond {marks : List (Mark ι Op Res)} {q : ι → Phase Op Res} {t : St} {call : ι} {res : Res} :
      Moves O p s marks q t → q call = .committed res →
      Moves O p s (marks ++ [.event (.respond call res)]) (Function.update q call .returned) t

variable {O : Object St Op Res} {p q r : ι → Phase Op Res} {s t u : St}
  {marks marks' : List (Mark ι Op Res)}

theorem Moves.append (h : Moves O p s marks q t) (h' : Moves O q t marks' r u) :
    Moves O p s (marks ++ marks') r u := by
  induction h' with
  | nil => rwa [List.append_nil]
  | invoke _ hq ih =>
    rw [← List.append_assoc]
    exact ih.invoke hq
  | commit _ hq hdoes ih =>
    rw [← List.append_assoc]
    exact ih.commit hq hdoes
  | respond _ hq ih =>
    rw [← List.append_assoc]
    exact ih.respond hq

section Marks
variable {e : Event ι Op Res} {c : Commit ι Op Res}

omit [DecidableEq ι] in
@[simp] theorem history_event : history (marks ++ [.event e]) = history marks ++ [e] :=
  List.filterMap_append

omit [DecidableEq ι] in
@[simp] theorem history_commit : history (marks ++ [.commit c]) = history marks := by
  simp [history, Mark.event?]

omit [DecidableEq ι] in
@[simp] theorem order_event : order (marks ++ [.event e]) = order marks := by
  simp [order, Mark.commit?]

omit [DecidableEq ι] in
@[simp] theorem order_commit : order (marks ++ [.commit c]) = order marks ++ [c] :=
  List.filterMap_append

end Marks

/-- What the marks have of a call in a phase. -/
def Tells (marks : List (Mark ι Op Res)) (call : ι) : Phase Op Res → Prop
  | .idle => (∀ op, .invoke call op ∉ history marks) ∧ (∀ c ∈ order marks, c.call ≠ call) ∧
      ∀ res, .respond call res ∉ history marks
  | .invoked op => .invoke call op ∈ history marks ∧ (∀ c ∈ order marks, c.call ≠ call) ∧
      ∀ res, .respond call res ∉ history marks
  | .committed res => (∃ op, .invoke call op ∈ history marks ∧ ⟨call, op, res⟩ ∈ order marks) ∧
      ∀ res, .respond call res ∉ history marks
  | .returned => True

section Other
variable {call : ι} {phase : Phase Op Res}

omit [DecidableEq ι] in
theorem Tells.event {e : Event ι Op Res} (h : Tells marks call phase) (hne : e.call ≠ call) :
    Tells (marks ++ [.event e]) call phase := by
  cases phase <;> simp only [Tells, history_event, order_event, List.mem_append] at h ⊢ <;>
    grind [Event.call]

omit [DecidableEq ι] in
theorem Tells.commit {c : Commit ι Op Res} (h : Tells marks call phase) (hne : c.call ≠ call) :
    Tells (marks ++ [.commit c]) call phase := by
  cases phase <;> simp only [Tells, history_commit, order_commit, List.mem_append] at h ⊢ <;> grind

end Other

theorem Moves.tells (h : Moves O (fun _ => .idle) s marks q t) (call : ι) :
    Tells marks call (q call) := by
  induction h with
  | nil => simp [Tells, history, order]
  | @invoke marks q t x op _ hq ih =>
    by_cases hcall : x = call
    · subst hcall
      rw [hq] at ih
      obtain ⟨-, hcommit, hrespond⟩ := ih
      rw [Function.update_self]
      refine ⟨?_, ?_, fun res => ?_⟩
      · simp
      · rwa [order_event]
      · simpa using hrespond res
    · rw [Function.update_of_ne (Ne.symm hcall)]
      exact ih.event hcall
  | @commit marks q t u x op res _ hq hdoes ih =>
    by_cases hcall : x = call
    · subst hcall
      rw [hq] at ih
      obtain ⟨hinvoke, -, hrespond⟩ := ih
      rw [Function.update_self]
      refine ⟨⟨op, ?_, ?_⟩, fun res => ?_⟩
      · rwa [history_commit]
      · simp
      · rw [history_commit]
        exact hrespond res
    · rw [Function.update_of_ne (Ne.symm hcall)]
      exact ih.commit hcall
  | @respond marks q t x res _ hq ih =>
    by_cases hcall : x = call
    · subst hcall
      rw [Function.update_self]
      trivial
    · rw [Function.update_of_ne (Ne.symm hcall)]
      exact ih.event hcall

/-! ### The order of the commits -/

omit [DecidableEq ι] in
/-- What two elements in a row are of a list that grew by one. -/
theorem pair_sublist_snoc {α : Type*} {a b x : α} {l : List α} (h : [a, b].Sublist (l ++ [x])) :
    [a, b].Sublist l ∨ (b = x ∧ a ∈ l) := by
  obtain ⟨front, back, heq, hfront, hback⟩ := List.sublist_append_iff.mp h
  rcases List.sublist_singleton.mp hback with rfl | rfl
  · rw [List.append_nil] at heq
    exact Or.inl (heq ▸ hfront)
  · have hends : [a] ++ [b] = front ++ [x] := heq
    obtain ⟨rfl, hb⟩ := List.append_inj' hends rfl
    exact Or.inr ⟨List.singleton_inj.mp hb, List.singleton_sublist.mp hfront⟩

theorem pair_sublist_of_snoc {α : Type*} {a b : α} {l : List α} (h : a ∈ l) :
    [a, b].Sublist (l ++ [b]) :=
  (List.singleton_sublist.mpr h).append (List.Sublist.refl [b])

theorem Moves.legal (h : Moves O (fun _ => .idle) O.init marks q t) : O.Legal (order marks) t := by
  induction h with
  | nil => exact Legal.nil
  | invoke _ _ ih =>
    rw [order_event]
    exact ih
  | commit _ _ hdoes ih =>
    rw [order_commit]
    exact ih.snoc hdoes
  | respond _ _ ih =>
    rw [order_event]
    exact ih

omit [DecidableEq ι] in
theorem mem_responded {history : List (Event ι Op Res)} {call : ι} :
    call ∈ history.filterMap Event.responded? ↔ ∃ res, .respond call res ∈ history := by
  simp only [List.mem_filterMap]
  constructor
  · intro hcase
    obtain ⟨e, he, hcall⟩ := hcase
    cases e with
    | invoke => cases hcall
    | respond x res =>
      obtain rfl := Option.some.inj hcall
      exact ⟨res, he⟩
  · intro hcase
    obtain ⟨res, hres⟩ := hcase
    exact ⟨_, hres, rfl⟩

omit [DecidableEq ι] in
theorem mem_invoked {history : List (Event ι Op Res)} {call : ι} :
    call ∈ history.filterMap Event.invoked? ↔ ∃ op, .invoke call op ∈ history := by
  simp only [List.mem_filterMap]
  constructor
  · intro hcase
    obtain ⟨e, he, hcall⟩ := hcase
    cases e with
    | respond => cases hcall
    | invoke x op =>
      obtain rfl := Option.some.inj hcall
      exact ⟨op, he⟩
  · intro hcase
    obtain ⟨op, hop⟩ := hcase
    exact ⟨_, hop, rfl⟩

theorem Moves.wellFormed (h : Moves O (fun _ => .idle) s marks q t) : WellFormed (history marks) := by
  induction h with
  | nil => exact ⟨List.nodup_nil, List.nodup_nil, fun _ _ h => nomatch h⟩
  | @invoke marks q t call op h hq ih =>
    have htells := h.tells call
    rw [hq] at htells
    rw [history_event]
    refine ⟨?_, ?_, fun x res hx => ?_⟩
    · rw [List.filterMap_append]
      refine List.nodup_append.mpr ⟨ih.invoked, List.nodup_singleton call, fun x hx y hy => ?_⟩
      obtain rfl := List.mem_singleton.mp hy
      intro hsame
      subst hsame
      obtain ⟨o, ho⟩ := mem_invoked.mp hx
      exact htells.1 o ho
    · rw [List.filterMap_append]
      exact (List.append_nil _).symm ▸ ih.responded
    · have hx' : .respond x res ∈ history marks := by simpa using hx
      obtain ⟨o, ho⟩ := ih.after x res hx'
      exact ⟨o, ho.trans (List.sublist_append_left _ _)⟩
  | commit _ _ _ ih =>
    rw [history_commit]
    exact ih
  | @respond marks q t call res h hq ih =>
    have htells := h.tells call
    rw [hq] at htells
    obtain ⟨⟨op, hinvoke, -⟩, hrespond⟩ := htells
    rw [history_event]
    refine ⟨?_, ?_, fun x r hx => ?_⟩
    · rw [List.filterMap_append]
      exact (List.append_nil _).symm ▸ ih.invoked
    · rw [List.filterMap_append]
      refine List.nodup_append.mpr ⟨ih.responded, List.nodup_singleton call, fun x hx y hy => ?_⟩
      obtain rfl := List.mem_singleton.mp hy
      intro hsame
      subst hsame
      obtain ⟨r, hr⟩ := mem_responded.mp hx
      exact hrespond r hr
    · rcases List.mem_append.mp hx with hx | hx
      · obtain ⟨o, ho⟩ := ih.after x r hx
        exact ⟨o, ho.trans (List.sublist_append_left _ _)⟩
      · obtain ⟨rfl, rfl⟩ : x = call ∧ r = res := by simpa using hx
        exact ⟨op, pair_sublist_of_snoc hinvoke⟩

/-- Calls take effect once, after they were made. -/
theorem Moves.once (h : Moves O (fun _ => .idle) s marks q t) :
    ((order marks).map Commit.call).Nodup ∧
      ∀ c ∈ order marks, .invoke c.call c.op ∈ history marks := by
  induction h with
  | nil => exact ⟨List.nodup_nil, fun _ h => nomatch h⟩
  | invoke _ _ ih =>
    rw [order_event, history_event]
    exact ⟨ih.1, fun c hc => List.mem_append_left _ (ih.2 c hc)⟩
  | @commit marks q t u call op res h hq hdoes ih =>
    have htells := h.tells call
    rw [hq] at htells
    obtain ⟨hinvoke, hcommit, -⟩ := htells
    rw [order_commit, history_commit]
    refine ⟨?_, fun c hc => ?_⟩
    · rw [List.map_append]
      refine List.nodup_append.mpr ⟨ih.1, List.nodup_singleton call, fun x hx y hy => ?_⟩
      obtain rfl := List.mem_singleton.mp hy
      obtain ⟨c, hc, rfl⟩ := List.mem_map.mp hx
      exact hcommit c hc
    · rcases List.mem_append.mp hc with hc | hc
      · exact ih.2 c hc
      · obtain rfl := List.mem_singleton.mp hc
        exact hinvoke
  | respond _ _ ih =>
    rw [order_event, history_event]
    exact ⟨ih.1, fun c hc => List.mem_append_left _ (ih.2 c hc)⟩

theorem Moves.answered (h : Moves O (fun _ => .idle) s marks q t) (call : ι) (res : Res)
    (hres : .respond call res ∈ history marks) : ∃ op, ⟨call, op, res⟩ ∈ order marks := by
  induction h with
  | nil => cases hres
  | invoke _ _ ih =>
    rw [order_event]
    exact ih (by simpa using hres)
  | commit _ _ _ ih =>
    rw [history_commit] at hres
    obtain ⟨op, hop⟩ := ih hres
    exact ⟨op, by simp [hop]⟩
  | @respond marks q t x r h hq ih =>
    rw [order_event]
    rw [history_event] at hres
    rcases List.mem_append.mp hres with hres | hres
    · exact ih hres
    · obtain ⟨rfl, rfl⟩ : call = x ∧ res = r := by simpa using hres
      have htells := h.tells call
      rw [hq] at htells
      obtain ⟨⟨op, -, hop⟩, -⟩ := htells
      exact ⟨op, hop⟩

/-- **What had returned took effect before what was made later.** -/
theorem Moves.realTime (h : Moves O (fun _ => .idle) s marks q t) {c c' : Commit ι Op Res}
    (hc : c ∈ order marks) (hc' : c' ∈ order marks) {res : Res} {op : Op}
    (hpair : [.respond c.call res, .invoke c'.call op].Sublist (history marks)) :
    [c, c'].Sublist (order marks) := by
  induction h with
  | nil => cases hc
  | @invoke marks q t x o h hq ih =>
    rw [order_event] at hc hc' ⊢
    rw [history_event] at hpair
    rcases pair_sublist_snoc hpair with hpair | ⟨heq, -⟩
    · exact ih hc hc' hpair
    · -- The later call has only just been made.
      obtain ⟨rfl, -⟩ := (Event.invoke.injEq ..).mp heq
      have htells := h.tells c'.call
      rw [hq] at htells
      exact absurd rfl (htells.2.1 c' hc')
  | @commit marks q t u x o r h hq hdoes ih =>
    have htells := h.tells x
    rw [hq] at htells
    rw [order_commit] at hc hc' ⊢
    rw [history_commit] at hpair
    have hold : c ∈ order marks := by
      rcases List.mem_append.mp hc with hc | hc
      · exact hc
      · -- What takes effect only now has not returned.
        obtain rfl := List.mem_singleton.mp hc
        exact absurd (hpair.subset List.mem_cons_self) (htells.2.2 res)
    rcases List.mem_append.mp hc' with hc' | hc'
    · exact (ih hold hc' hpair).trans (List.sublist_append_left _ _)
    · obtain rfl := List.mem_singleton.mp hc'
      exact pair_sublist_of_snoc hold
  | respond _ _ ih =>
    rw [order_event] at hc hc' ⊢
    rw [history_event] at hpair
    rcases pair_sublist_snoc hpair with hpair | ⟨heq, -⟩
    · exact ih hc hc' hpair
    · cases heq

/-- **Commit points linearize.** -/
theorem Moves.linearizes (h : Moves O (fun _ => .idle) O.init marks q t) :
    O.Linearizes (history marks) (order marks) t where
  wellFormed := h.wellFormed
  legal := h.legal
  once := h.once.1
  invoked := h.once.2
  answered := h.answered
  realTime := fun _ hc _ hc' _ _ hpair => h.realTime hc hc' hpair

/-! ### Machines -/

section Machine
variable {S L : Type*} {M : Machine S L}

/-- The marks of a run. -/
def marksOf (out : S → L → List (Mark ι Op Res)) (trace : List (S × L)) : List (Mark ι Op Res) :=
  trace.flatMap fun e => out e.1 e.2

omit [DecidableEq ι] in
theorem marksOf_snoc (out : S → L → List (Mark ι Op Res)) (trace : List (S × L)) (c : S) (l : L) :
    marksOf out (trace ++ [(c, l)]) = marksOf out trace ++ out c l := by
  rw [marksOf, List.flatMap_append, List.flatMap_singleton]
  rfl

/-- **A machine whose every step is what its marks say of the object** is linearizable.
`phases` and `held` are what a state makes of the calls and of the object. -/
theorem linearizes_of_run {P : S → Prop} {r : S → L → Prop} {out : S → L → List (Mark ι Op Res)}
    (phases : S → ι → Phase Op Res) (held : S → St) {a b : S} {trace : List (S × L)}
    (run : M.Run a trace b) (ha : P a) (hidle : ∀ call, phases a call = .idle) (hinit : held a = O.init)
    (hstep : ∀ c l d, P c → r c l → M.step c l = some d →
      P d ∧ Moves O (phases c) (held c) (out c l) (phases d) (held d))
    (h : Machine.Meets r trace) :
    O.Linearizes (history (marksOf out trace)) (order (marksOf out trace)) (held b) := by
  have hmoves : P b ∧ Moves O (phases a) (held a) (marksOf out trace) (phases b) (held b) := by
    induction run with
    | nil => exact ⟨ha, Moves.nil⟩
    | snoc _ hd ih =>
      obtain ⟨htrace, hlast⟩ := Machine.meets_snoc.mp h
      obtain ⟨hc, hmoves⟩ := ih htrace
      obtain ⟨hd, hlater⟩ := hstep _ _ _ hc hlast hd
      rw [marksOf_snoc]
      exact ⟨hd, hmoves.append hlater⟩
  have hall := hmoves.2
  rw [funext hidle, hinit] at hall
  exact hall.linearizes

end Machine

/-! ### Calls kept in a list

A call is known by its place in the list, and its phase by where it is in its code. -/

section Calls
variable {C : Type*} {phase : C → Phase Op Res} {calls : List C} {k : ℕ} {old call : C}

def phaseAt (phase : C → Phase Op Res) (calls : List C) (k : ℕ) : Phase Op Res :=
  ((calls.map phase)[k]?).getD .idle

theorem phaseAt_of_get (h : calls[k]? = some call) : phaseAt phase calls k = phase call := by
  rw [phaseAt, List.getElem?_map, h]
  rfl

theorem phaseAt_length : phaseAt phase calls calls.length = .idle := by
  rw [phaseAt, List.getElem?_map, List.getElem?_eq_none (Nat.le_refl _)]
  rfl

theorem phaseAt_append : phaseAt phase (calls ++ [call]) =
    Function.update (phaseAt phase calls) calls.length (phase call) := by
  funext j
  simp only [phaseAt, List.map_append, List.getElem?_append, List.length_map, Function.update_apply]
  rcases Nat.lt_trichotomy j calls.length with hj | rfl | hj
  · rw [if_pos hj, if_neg (Nat.ne_of_lt hj)]
  · simp
  · rw [if_neg (Nat.lt_asymm hj), if_neg (Nat.ne_of_gt hj), List.getElem?_eq_none (by simp; omega),
      List.getElem?_eq_none (by simp; omega)]

theorem phaseAt_set (h : calls[k]? = some old) : phaseAt phase (calls.set k call) =
    Function.update (phaseAt phase calls) k (phase call) := by
  obtain ⟨hk, -⟩ := List.getElem?_eq_some_iff.mp h
  funext j
  simp only [phaseAt, List.getElem?_map, List.getElem?_set, Function.update_apply]
  rcases eq_or_ne k j with rfl | hj
  · simp [hk]
  · rw [if_neg hj, if_neg (Ne.symm hj)]

variable {op : Op} {res : Res}

theorem moves_invoke (hcall : phase call = .invoked op) :
    Moves O (phaseAt phase calls) s [.event (.invoke calls.length op)]
      (phaseAt phase (calls ++ [call])) s := by
  rw [phaseAt_append, hcall]
  exact Moves.nil.invoke phaseAt_length

theorem moves_commit (hk : calls[k]? = some old) (hold : phase old = .invoked op)
    (hcall : phase call = .committed res) (hdoes : O.does s op res t) :
    Moves O (phaseAt phase calls) s [.commit ⟨k, op, res⟩] (phaseAt phase (calls.set k call)) t := by
  rw [phaseAt_set hk, hcall]
  exact Moves.nil.commit ((phaseAt_of_get hk).trans hold) hdoes

theorem moves_respond (hk : calls[k]? = some old) (hold : phase old = .committed res)
    (hcall : phase call = .returned) :
    Moves O (phaseAt phase calls) s [.event (.respond k res)] (phaseAt phase (calls.set k call)) s := by
  rw [phaseAt_set hk, hcall]
  exact Moves.nil.respond ((phaseAt_of_get hk).trans hold)

/-- A call that takes effect and returns. -/
theorem moves_return (hk : calls[k]? = some old) (hold : phase old = .invoked op)
    (hcall : phase call = .returned) (hdoes : O.does s op res t) :
    Moves O (phaseAt phase calls) s [.commit ⟨k, op, res⟩, .event (.respond k res)]
      (phaseAt phase (calls.set k call)) t := by
  have hcommit := Moves.nil.commit ((phaseAt_of_get hk).trans hold) hdoes
  have hreturn := hcommit.respond (Function.update_self ..)
  rwa [Function.update_idem, ← hcall, ← phaseAt_set hk] at hreturn

/-- A step that leaves the calls in their phases. -/
theorem moves_quiet {calls' : List C} (h : calls'.map phase = calls.map phase) :
    Moves O (phaseAt phase calls) s [] (phaseAt phase calls') s := by
  have hsame : phaseAt phase calls' = phaseAt phase calls := by
    funext j
    rw [phaseAt, phaseAt, h]
  rw [hsame]
  exact Moves.nil

theorem map_set_same (h : calls[k]? = some old) (hsame : phase call = phase old) :
    (calls.set k call).map phase = calls.map phase := by
  obtain ⟨hk, rfl⟩ := List.getElem?_eq_some_iff.mp h
  rw [List.map_set, hsame, ← List.map_set, List.set_getElem_self]

end Calls

end Object
end PrivateCloud
