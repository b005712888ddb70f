import PrivateCloud.Library.Descriptors

/-! Opening the device: `NbdDevOpen` and `CleanUp` of `nbd_comm.c`.

Every failure ends in one exit, which closes `sp[0]`, `sp[1]` and `nbd` in that order
and stops at the first `close` that fails. Where the device does not open, or the
socketpair is not made, `sp` holds what the stack held; in the child `sp[0]` is closed
already. So the exit is right for the failures in between (`tidy_iff`). -/
namespace PrivateCloud.Nbd

/-- The commands, with the argument each is given. -/
inductive Ioctl
  | setBlksize (size : ℤ)
  | setSize (size : UInt64)
  | clearSock
  | clearQue
  | setSock (fd : ℤ)
  | setTimeout (seconds : ℤ)
  | doIt
deriving DecidableEq

/-- What the calls of one run come back with: whether the device opens, whether a
socketpair is made, which commands the device takes, and the `pid`, none where `fork`
fails. -/
structure System where
  opens : String → Bool
  socketpair : Bool
  ioctl : ℤ → Ioctl → Bool
  fork : Option ℕ

/-- `CleanUp`. -/
def cleanUp : List ℤ → Descriptors → ℤ × Descriptors
  | [], t => (0, t)
  | fd :: arr, t =>
    let (r, t) := t.close fd
    if r = -1 then (-1, t) else cleanUp arr t

/-- The exit of a run that failed. -/
def fail (sp : ℤ × ℤ) (nbd : ℤ) (t : Descriptors) : ℤ × Descriptors :=
  (-1, (cleanUp [sp.1, sp.2, nbd] t).2)

/-- The commands before the `fork`; the first that fails is the last. -/
def System.prepares (sys : System) (nbd : ℤ) (size : UInt64) (sp : ℤ × ℤ) : Bool :=
  [.setBlksize 1024, .setSize size, .clearSock, .clearQue, .setSock sp.2, .setTimeout 30].all
    (sys.ioctl nbd)

/-- What follows the `fork`: `close(sp[1]); return sp[0];` in the parent, and in the
child too where `NBD_DO_IT` comes back with success. -/
def forked (sys : System) (pid : ℕ) (sp : ℤ × ℤ) (nbd : ℤ) (t : Descriptors) : ℤ × Descriptors :=
  if pid = 0 then
    let t := (t.close sp.1).2
    if sys.ioctl nbd .doIt then (sp.1, (t.close sp.2).2) else fail sp nbd t
  else (sp.1, (t.close sp.2).2)

/-- What `NbdDevOpen` returns and the descriptors that are open then; `sp` is what the
array held before. -/
def nbdDevOpen (sys : System) (devName : String) (size : UInt64) (sp : ℤ × ℤ) (t : Descriptors) :
    ℤ × Descriptors :=
  if sys.opens devName then
    let nbd := t.take.1
    let t := t.take.2
    if sys.socketpair then
      let sp := (t.take.1, t.take.2.take.1)
      let t := t.take.2.take.2
      if sys.prepares nbd size sp then
        match sys.fork with
        | none => fail sp nbd t
        | some pid => forked sys pid sp nbd t
      else fail sp nbd t
    else fail sp nbd t
  else fail sp (-1) t

/-- No trace on failure, a usable socket on success. -/
def Tidy (t : Descriptors) (r : ℤ × Descriptors) : Prop := if r.1 = -1 then r.2 = t else r.1 ∈ r.2

instance (t : Descriptors) (r : ℤ × Descriptors) : Decidable (Tidy t r) :=
  inferInstanceAs (Decidable (if r.1 = -1 then r.2 = t else r.1 ∈ r.2))

/-- The garbage of `sp` is harmless where the device or the socketpair fails, and the
caller is not the child. -/
def Harmless (sys : System) (devName : String) (size : UInt64) (sp : ℤ × ℤ) (t : Descriptors) : Prop :=
  if sys.opens devName then
    if sys.socketpair then
      sys.prepares t.take.1 size (t.take.2.take.1, t.take.2.take.2.take.1) → sys.fork ≠ some 0
    else sp.1 = t.take.1 ∧ sp.2 ∉ t
  else sp.1 ∉ t

variable {sys : System} {devName : String} {size : UInt64} {sp : ℤ × ℤ} {nbd : ℤ}
  {t t' : Descriptors}

/-! ### The exit -/

theorem cleanUp_stops {fd : ℤ} (arr : List ℤ) (h : fd ∉ t) : cleanUp (fd :: arr) t = (-1, t) := by
  rw [cleanUp, Descriptors.close_of_notMem h]
  rfl

theorem cleanUp_closes {fd : ℤ} (arr : List ℤ) (h : fd ∈ t) :
    cleanUp (fd :: arr) t = cleanUp arr (t.erase fd) := by
  rw [cleanUp, Descriptors.close_of_mem h]
  rfl

/-- Closing opens nothing. -/
theorem cleanUp_le {fd : ℤ} (arr : List ℤ) (h : fd ∈ (cleanUp arr t).2) : fd ∈ t := by
  induction arr generalizing t with
  | nil => exact h
  | cons x arr ih =>
    by_cases hx : x ∈ t
    · rw [cleanUp_closes arr hx] at h
      exact (Descriptors.mem_erase.mp (ih h)).2
    · rwa [cleanUp_stops arr hx] at h

/-- Descriptors that are all open and all different are all closed, and no other is. -/
theorem mem_cleanUp {fd : ℤ} {arr : List ℤ} (hnodup : arr.Nodup) (hopen : ∀ x ∈ arr, x ∈ t) :
    fd ∈ (cleanUp arr t).2 ↔ fd ∉ arr ∧ fd ∈ t := by
  induction arr generalizing t with
  | nil => simp [cleanUp]
  | cons x arr ih =>
    obtain ⟨hx, hnodup⟩ := List.nodup_cons.mp hnodup
    have hrest : ∀ y ∈ arr, y ∈ t.erase x := fun y hy =>
      Descriptors.mem_erase.mpr ⟨fun heq => hx (heq ▸ hy), hopen y (List.mem_cons_of_mem _ hy)⟩
    rw [cleanUp_closes arr (hopen x List.mem_cons_self), ih hnodup hrest, Descriptors.mem_erase,
      List.mem_cons]
    tauto

theorem tidy_fail : Tidy t (fail sp nbd t') ↔ (cleanUp [sp.1, sp.2, nbd] t').2 = t := by
  simp only [Tidy, fail, if_true]

/-- A descriptor of before the call is closed. -/
theorem fail_loses {fd : ℤ} (h : fd ∈ t) (hlost : fd ∉ (cleanUp [sp.1, sp.2, nbd] t').2) :
    ¬Tidy t (fail sp nbd t') := fun htidy => hlost (tidy_fail.mp htidy ▸ h)

/-- `sp[0]` is not open, so nothing is closed. -/
theorem fail_leaks {fd : ℤ} (hfd : fd ∈ t') (h : fd ∉ t) (hsp : sp.1 ∉ t') :
    ¬Tidy t (fail sp nbd t') := by
  rw [tidy_fail, cleanUp_stops _ hsp]
  exact fun heq => h (heq ▸ hfd)

theorem notMem_erase_cleanUp (fd : ℤ) (arr : List ℤ) : fd ∉ (cleanUp arr (t.erase fd)).2 :=
  fun h => (Descriptors.mem_erase.mp (cleanUp_le arr h)).1 rfl

/-! ### The failures -/

/-- The device does not open. -/
theorem tidy_unopened : Tidy t (fail sp (-1) t) ↔ sp.1 ∉ t := by
  refine ⟨fun htidy hmem => fail_loses hmem ?_ htidy, fun h => ?_⟩
  · rw [cleanUp_closes _ hmem]
    exact notMem_erase_cleanUp _ _
  · rw [tidy_fail, cleanUp_stops _ h]

/-- The device opens and there is no socketpair. -/
theorem tidy_unpaired : Tidy t (fail sp t.take.1 t.take.2) ↔ sp.1 = t.take.1 ∧ sp.2 ∉ t := by
  by_cases heq : sp.1 = t.take.1
  · -- the stale `sp[0]` is the number the device has got: the device is closed through it
    have hclosed : cleanUp [sp.1, sp.2, t.take.1] t.take.2 = cleanUp [sp.2, t.take.1] t := by
      rw [heq, cleanUp_closes _ (Descriptors.mem_take.mpr (.inl rfl)), Descriptors.erase_take]
    refine ⟨fun htidy => ⟨heq, fun hmem => fail_loses hmem ?_ htidy⟩, fun ⟨_, h⟩ => ?_⟩
    · rw [hclosed, cleanUp_closes _ hmem]
      exact notMem_erase_cleanUp _ _
    · rw [tidy_fail, hclosed, cleanUp_stops _ h]
  · refine ⟨fun htidy => ?_, fun h => absurd h.1 heq⟩
    by_cases hmem : sp.1 ∈ t
    · refine absurd htidy (fail_loses hmem ?_)
      rw [cleanUp_closes _ (Descriptors.mem_take.mpr (.inr hmem))]
      exact notMem_erase_cleanUp _ _
    · have hsp : sp.1 ∉ t.take.2 := fun h => (Descriptors.mem_take.mp h).elim heq hmem
      exact absurd htidy (fail_leaks (Descriptors.mem_take.mpr (.inl rfl)) t.take_notMem hsp)

section Made

/-! The device is open and the socketpair made: `t'` is the table then. -/

/-- The three descriptors are new and different, and nothing else has changed. -/
structure Made (t : Descriptors) (sp : ℤ × ℤ) (nbd : ℤ) (t' : Descriptors) : Prop where
  nodup : [sp.1, sp.2, nbd].Nodup
  fresh : ∀ fd ∈ [sp.1, sp.2, nbd], fd ∉ t
  mem : ∀ fd, fd ∈ t' ↔ fd ∈ [sp.1, sp.2, nbd] ∨ fd ∈ t
  nonneg : 0 ≤ sp.1

theorem made_take (t : Descriptors) :
    Made t (t.take.2.take.1, t.take.2.take.2.take.1) t.take.1 t.take.2.take.2.take.2 where
  nodup := by
    have h0 := t.take.2.take_notMem
    have h1 := t.take.2.take.2.take_notMem
    simp only [Descriptors.mem_take, not_or] at h0 h1
    simp only [List.nodup_cons, List.mem_cons, List.not_mem_nil, or_false, not_false_iff, not_or,
      List.nodup_nil, and_true]
    exact ⟨⟨Ne.symm h1.1, h0.1⟩, h1.2.1⟩
  fresh := by
    have h0 := t.take.2.take_notMem
    have h1 := t.take.2.take.2.take_notMem
    simp only [Descriptors.mem_take, not_or] at h0 h1
    simp only [List.mem_cons, List.not_mem_nil, or_false]
    rintro fd (rfl | rfl | rfl)
    exacts [h0.2, h1.2.2, t.take_notMem]
  mem fd := by
    simp only [Descriptors.mem_take, List.mem_cons, List.not_mem_nil, or_false]
    tauto
  nonneg := Descriptors.take_nonneg _

variable (h : Made t sp nbd t')
include h

/-- The exit closes all three. -/
theorem Made.tidy_fail : Tidy t (fail sp nbd t') := by
  refine PrivateCloud.Nbd.tidy_fail.mpr (Descriptors.eq_of_mem fun fd => ?_)
  rw [mem_cleanUp h.nodup fun x hx => (h.mem x).mpr (.inl hx), h.mem]
  exact ⟨fun ⟨hne, hmem⟩ => hmem.resolve_left hne,
    fun hfd => ⟨fun hnew => h.fresh fd hnew hfd, .inr hfd⟩⟩

/-- The parent keeps `sp[0]`; the child has closed it, whatever `NBD_DO_IT` says. -/
theorem Made.tidy_forked (pid : ℕ) : Tidy t (forked sys pid sp nbd t') ↔ pid ≠ 0 := by
  have hopen : ∀ fd ∈ [sp.1, sp.2, nbd], fd ∈ t' := fun fd hfd => (h.mem fd).mpr (.inl hfd)
  have hne : sp.1 ≠ sp.2 := fun heq => (List.nodup_cons.mp h.nodup).1 (heq ▸ List.mem_cons_self)
  have hreturned (t'' : Descriptors) : Tidy t (sp.1, t'') ↔ sp.1 ∈ t'' := by
    rw [Tidy, if_neg (fun heq => absurd h.nonneg (by omega))]
  unfold forked
  split
  case isTrue hchild =>
    refine iff_of_false ?_ (not_not_intro hchild)
    have hclosed : sp.1 ∉ (t'.close sp.1).2 := fun hmem => (Descriptors.mem_close.mp hmem).1 rfl
    split
    · rw [hreturned, Descriptors.mem_close]
      exact fun hmem => hclosed hmem.2
    · -- `sp[1]` stays open
      have hmem : sp.2 ∈ [sp.1, sp.2, nbd] := List.mem_cons_of_mem _ List.mem_cons_self
      exact fail_leaks (Descriptors.mem_close.mpr ⟨hne.symm, hopen _ hmem⟩) (h.fresh _ hmem) hclosed
  case isFalse hparent =>
    rw [hreturned, Descriptors.mem_close]
    exact iff_of_true ⟨hne, hopen _ List.mem_cons_self⟩ hparent

end Made

/-- **No trace on failure and a usable socket on success**, where the stale `sp` is
harmless and the caller is not the child. -/
theorem tidy_iff (sys : System) (devName : String) (size : UInt64) (sp : ℤ × ℤ) (t : Descriptors) :
    Tidy t (nbdDevOpen sys devName size sp t) ↔ Harmless sys devName size sp t := by
  unfold nbdDevOpen Harmless
  by_cases hopens : sys.opens devName
  · rw [if_pos hopens, if_pos hopens]
    by_cases hpair : sys.socketpair
    · have hmade := made_take t
      rw [if_pos hpair, if_pos hpair]
      by_cases hprep : sys.prepares t.take.1 size (t.take.2.take.1, t.take.2.take.2.take.1)
      · rw [if_pos hprep, forall_prop_of_true hprep]
        cases sys.fork with
        | none => exact iff_of_true hmade.tidy_fail nofun
        | some pid => exact (hmade.tidy_forked pid).trans (not_congr Option.some_inj.symm)
      · rw [if_neg hprep]
        exact iff_of_true hmade.tidy_fail fun hall => absurd hall hprep
    · rw [if_neg hpair, if_neg hpair]
      exact tidy_unpaired
  · rw [if_neg hopens, if_neg hopens]
    exact tidy_unopened

/-- The standard streams. -/
def stdio : Descriptors where
  fds := {0, 1, 2}
  nonneg := by decide

/-- The device does not open and the stack holds zeros: standard input is closed. The
device is busy (`NBD_DO_IT` fails in the child): 3 and 5, the device and `sp[1]`, stay
open. -/
theorem stdin_closed :
    nbdDevOpen ⟨fun _ => false, true, fun _ _ => true, some 1⟩ "/dev/nbd0" 1048576 (0, 0) stdio =
        (-1, stdio.erase 0) ∧
      ¬Tidy stdio (nbdDevOpen ⟨fun _ => false, true, fun _ _ => true, some 1⟩ "/dev/nbd0" 1048576
        (0, 0) stdio) ∧
      ¬Tidy stdio (nbdDevOpen ⟨fun _ => true, true, fun _ cmd => cmd ≠ .doIt, some 0⟩ "/dev/nbd0"
        1048576 (0, 0) stdio) := by
  decide

end PrivateCloud.Nbd
