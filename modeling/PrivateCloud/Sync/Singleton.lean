import PrivateCloud.Library.Bag
import PrivateCloud.Library.Machine

/-! The singleton: `singleton.hpp`.

Every load, store and test-and-set of a constructor is a step, and so are the two halves
of `new T`: the memory, and `T`'s constructor. A thread that constructs another
`Singleton<T>` is another entry. `T`'s constructor may throw and `CleanUp` may run; what
is proved is about runs in which neither happens (`Quiet`).

One constructor wins the test-and-set, for good, and `m_instance` is set by nobody else
(`winner`): a pointer that is set stays as it is (`grows_step`). -/
namespace PrivateCloud.Sync

namespace Singleton

/-- `object` is the place of what it points to in the order of allocation. -/
inductive Pointer where
  | null
  | to (object : ℕ)
  /-- What `CleanUp` leaves. -/
  | deadbeef
  deriving DecidableEq

/-- A constructor of `Singleton<T>`, by what it does next. -/
inductive Ctor where
  /-- The first test of `m_instance`. -/
  | test
  | testAndSet
  /-- `new T`: the memory, then `T`'s constructor. -/
  | allocate
  | construct (object : ℕ)
  | store (object : ℕ)
  | atexit
  /-- Another load of `m_instance`. -/
  | spin
  | returned
  | thrown
  deriving DecidableEq

end Singleton

/-- `objects` has for every object whether it is constructed and not destroyed, `registered`
is how often `CleanUp` will run at exit. `constructions` is a history: how often `T`'s
constructor was run. -/
structure Singleton where
  mInstance : Singleton.Pointer
  ctorStarted : Bool
  objects : List Bool
  registered : ℕ
  ctors : List Singleton.Ctor
  constructions : ℕ

namespace Singleton

inductive Label where
  /-- Somebody constructs a `Singleton<T>`. -/
  | call
  /-- Constructor `k` does its next step. -/
  | go (k : ℕ)
  /-- `new T` throws in constructor `k`. -/
  | throws (k : ℕ)
  | cleanUp

def create : Singleton := ⟨.null, false, [], 0, [], 0⟩

/-- `operator->`. -/
def arrow (s : Singleton) : Pointer := s.mInstance

/-- One step of the constructor at `k`, which is at `ctor`. -/
def go (s : Singleton) (k : ℕ) : Ctor → Option Singleton
  | .test => some {s with
      ctors := s.ctors.set k (if s.mInstance = .null then .testAndSet else .returned)}
  | .testAndSet => some {s with
      ctorStarted := true
      ctors := s.ctors.set k (if s.ctorStarted then .spin else .allocate)}
  | .allocate => some {s with
      objects := s.objects ++ [false]
      ctors := s.ctors.set k (.construct s.objects.length)}
  | .construct object => some {s with
      objects := s.objects.set object true
      ctors := s.ctors.set k (.store object)
      constructions := s.constructions + 1}
  | .store object => some {s with
      mInstance := .to object
      ctors := s.ctors.set k .atexit}
  | .atexit => some {s with
      registered := s.registered + 1
      ctors := s.ctors.set k .returned}
  | .spin => some {s with ctors := s.ctors.set k (if s.mInstance = .null then .spin else .returned)}
  | .returned | .thrown => none

def step (s : Singleton) : Label → Option Singleton
  | .call => some {s with ctors := s.ctors ++ [.test]}
  | .go k => (s.ctors[k]?).bind (go s k)
  | .throws k =>
    match s.ctors[k]? with
    | some .allocate | some (.construct _) => some {s with ctors := s.ctors.set k .thrown}
    | _ => none
  | .cleanUp =>
    if s.registered = 0 then none
    else match s.mInstance with
      | .null => some {s with mInstance := .deadbeef, registered := s.registered - 1}
      | .to object => some {s with
          mInstance := .deadbeef
          objects := s.objects.set object false
          registered := s.registered - 1}
      -- deletes what is not an object
      | .deadbeef => none

def machine : Machine Singleton Label := ⟨create, step⟩

/-- `CleanUp` does not run and `new T` does not throw. -/
def Quiet (_ : Singleton) : Label → Prop
  | .call | .go _ => True
  | .throws _ | .cleanUp => False

instance (s : Singleton) : (l : Label) → Decidable (Quiet s l)
  | .call | .go _ => isTrue trivial
  | .throws _ | .cleanUp => isFalse id

/-! ### Who has won -/

/-- Somebody has stored the pointer. -/
def stored (s : Singleton) : Bool := s.mInstance != .null

namespace Ctor

/-- It has won the test-and-set and has still to store the pointer. -/
def isWinner : Ctor → Bool
  | .allocate | .construct _ | .store _ => true
  | _ => false

/-- It has won and has still to run `T`'s constructor. -/
def isBuilding : Ctor → Bool
  | .allocate | .construct _ => true
  | _ => false

def isAtexit : Ctor → Bool
  | .atexit => true
  | _ => false

end Ctor

/-- What a constructor relies on where it is. -/
def Sound (s : Singleton) : Ctor → Prop
  | .construct object => object < s.objects.length
  | .store object => s.objects[object]? = some true
  | .atexit | .returned => s.stored = true
  | _ => True

structure Inv (s : Singleton) : Prop where
  winner : s.ctors.countP Ctor.isWinner + s.stored.toNat = s.ctorStarted.toNat
  built : s.constructions + s.ctors.countP Ctor.isBuilding = s.ctorStarted.toNat
  registered : s.registered + s.ctors.countP Ctor.isAtexit = s.stored.toNat
  pointer : s.stored = true → ∃ object, s.mInstance = .to object ∧ s.objects[object]? = some true
  sound : ∀ ctor ∈ s.ctors, Sound s ctor

/-- What a step that destroys nothing does to the instance: nothing, once it is there. -/
structure Grows (s s' : Singleton) : Prop where
  length : s.objects.length ≤ s'.objects.length
  constructed : ∀ object : ℕ, s.objects[object]? = some true → s'.objects[object]? = some true
  pointer : s.stored = true → s'.mInstance = s.mInstance

variable {s s' t : Singleton}

theorem Grows.same (hobjects : s'.objects = s.objects) (hpointer : s'.mInstance = s.mInstance) :
    Grows s s' :=
  ⟨Nat.le_of_eq (congrArg List.length hobjects.symm), fun _ h => hobjects ▸ h, fun _ => hpointer⟩

theorem Grows.stored (h : Grows s s') (hs : s.stored = true) : s'.stored = true := by
  unfold Singleton.stored at hs ⊢
  rw [h.pointer hs]
  exact hs

theorem Grows.trans (h : Grows s s') (h' : Grows s' t) : Grows s t :=
  ⟨h.length.trans h'.length, fun object hobject => h'.constructed object (h.constructed object hobject),
    fun hs => (h'.pointer (h.stored hs)).trans (h.pointer hs)⟩

theorem Grows.sound (h : Grows s s') {ctor : Ctor} (hctor : Sound s ctor) : Sound s' ctor := by
  cases ctor with
  | construct => exact Nat.lt_of_lt_of_le hctor h.length
  | store object => exact h.constructed object hctor
  | atexit | returned => exact h.stored hctor
  | _ => trivial

theorem Grows.pointer_sound (h : Grows s s') (hinv : Inv s) (hstored : s.stored = true) :
    ∃ object, s'.mInstance = .to object ∧ s'.objects[object]? = some true := by
  obtain ⟨object, hto, hobject⟩ := hinv.pointer hstored
  exact ⟨object, (h.pointer hstored).trans hto, h.constructed object hobject⟩

theorem inv_create : Inv create where
  winner := rfl
  built := rfl
  registered := rfl
  pointer := nofun
  sound := nofun

theorem inv_call (h : Inv s) : Inv {s with ctors := s.ctors ++ [.test]} := by
  have hgrows : Grows s {s with ctors := s.ctors ++ [.test]} := Grows.same rfl rfl
  refine ⟨?_, ?_, ?_, h.pointer, fun ctor hctor => ?_⟩
  · rw [List.countP_append]
    exact h.winner
  · rw [List.countP_append]
    exact h.built
  · rw [List.countP_append]
    exact h.registered
  · rcases List.mem_append.mp hctor with hctor | hctor
    · exact hgrows.sound (h.sound ctor hctor)
    · rw [List.mem_singleton.mp hctor]
      trivial

/-! ### One step of a constructor -/

/-- What there is to show of a step of constructor `k` from `old` to `ctor`: what it does to
the instance, where it gets, and that each count changes by what that says. -/
theorem inv_move {k : ℕ} {old ctor : Ctor} (h : Inv s) (hk : s.ctors[k]? = some old)
    (hctors : s'.ctors = s.ctors.set k ctor) (hgrows : Grows s s') (hsound : Sound s' ctor)
    (hpointer : s'.stored = true → ∃ object, s'.mInstance = .to object ∧ s'.objects[object]? = some true)
    (hwinner : ctor.isWinner.toNat + s'.stored.toNat + s.ctorStarted.toNat =
      old.isWinner.toNat + s.stored.toNat + s'.ctorStarted.toNat)
    (hbuilt : ctor.isBuilding.toNat + s'.constructions + s.ctorStarted.toNat =
      old.isBuilding.toNat + s.constructions + s'.ctorStarted.toNat)
    (hregistered : ctor.isAtexit.toNat + s'.registered + s.stored.toNat =
      old.isAtexit.toNat + s.registered + s'.stored.toNat) : Inv s' := by
  have hcount (p : Ctor → Bool) :
      s'.ctors.countP p + (p old).toNat = s.ctors.countP p + (p ctor).toNat := by
    have hset := Bag.countP_set p hk ctor
    rw [← hctors] at hset
    cases hold : p old <;> cases hnew : p ctor <;> simpa [hold, hnew] using hset
  refine ⟨?_, ?_, ?_, hpointer, fun c hc => ?_⟩
  · have hold := h.winner
    have hmove := hcount Ctor.isWinner
    omega
  · have hold := h.built
    have hmove := hcount Ctor.isBuilding
    omega
  · have hold := h.registered
    have hmove := hcount Ctor.isAtexit
    omega
  · rw [hctors] at hc
    rcases Bag.mem_set hc with rfl | hmem
    · exact hsound
    · exact hgrows.sound (h.sound c hmem)

/-- A constructor that only looks. -/
theorem inv_look {k : ℕ} {old ctor : Ctor} (h : Inv s) (hk : s.ctors[k]? = some old)
    (hwinner : ctor.isWinner = old.isWinner) (hbuilding : ctor.isBuilding = old.isBuilding)
    (hatexit : ctor.isAtexit = old.isAtexit) (hsound : Sound s ctor) :
    Inv {s with ctors := s.ctors.set k ctor} := by
  have hgrows : Grows s {s with ctors := s.ctors.set k ctor} := Grows.same rfl rfl
  exact inv_move h hk rfl hgrows (hgrows.sound hsound) h.pointer (by rw [hwinner]; rfl)
    (by rw [hbuilding]) (by rw [hatexit]; rfl)

/-- The first to test and set finds that nobody has won. -/
theorem inv_win {k : ℕ} (h : Inv s) (hk : s.ctors[k]? = some .testAndSet)
    (hstarted : s.ctorStarted = false) :
    Inv {s with ctorStarted := true, ctors := s.ctors.set k .allocate} := by
  refine inv_move h hk rfl (Grows.same rfl rfl) trivial h.pointer ?_ ?_ rfl
  · show 1 + s.stored.toNat + s.ctorStarted.toNat = 0 + s.stored.toNat + 1
    rw [hstarted, Bool.toNat_false]
    omega
  · show 1 + s.constructions + s.ctorStarted.toNat = 0 + s.constructions + 1
    rw [hstarted, Bool.toNat_false]
    omega

/-- Nobody has stored the pointer before the winner does. -/
theorem stored_store {k object : ℕ} (h : Inv s) (hk : s.ctors[k]? = some (.store object)) :
    s.stored = false := by
  have hone : 0 < s.ctors.countP Ctor.isWinner :=
    List.countP_pos_iff.mpr ⟨_, List.mem_of_getElem? hk, rfl⟩
  have hwinner := h.winner
  have hle := Bool.toNat_le s.ctorStarted
  have hnone : s.stored.toNat = 0 := by omega
  simpa using hnone

theorem go_grows {k : ℕ} {ctor : Ctor} (h : Inv s) (hk : s.ctors[k]? = some ctor)
    (hs : go s k ctor = some s') : Grows s s' := by
  cases ctor with
  | allocate =>
    obtain rfl := Option.some.inj hs
    refine ⟨?_, fun object hobject => ?_, fun _ => rfl⟩
    · simp
    · obtain ⟨hlt, -⟩ := List.getElem?_eq_some_iff.mp hobject
      exact (List.getElem?_append_left hlt).trans hobject
  | construct object =>
    obtain rfl := Option.some.inj hs
    refine ⟨?_, fun other hother => ?_, fun _ => rfl⟩
    · simp
    · by_cases heq : object = other
      · subst heq
        exact List.getElem?_set_self (h.sound _ (List.mem_of_getElem? hk))
      · exact (List.getElem?_set_ne heq).trans hother
  | store object =>
    obtain rfl := Option.some.inj hs
    refine ⟨Nat.le_refl _, fun _ hother => hother, fun hstored => ?_⟩
    rw [stored_store h hk] at hstored
    cases hstored
  | returned | thrown => cases hs
  | _ =>
    obtain rfl := Option.some.inj hs
    exact Grows.same rfl rfl

theorem go_inv {k : ℕ} {ctor : Ctor} (h : Inv s) (hk : s.ctors[k]? = some ctor)
    (hs : go s k ctor = some s') : Inv s' := by
  have hgrows := go_grows h hk hs
  have hsound := h.sound _ (List.mem_of_getElem? hk)
  cases ctor with
  | test =>
    obtain rfl := Option.some.inj hs
    split
    case isTrue => exact inv_look h hk rfl rfl rfl trivial
    case isFalse hset => exact inv_look h hk rfl rfl rfl (bne_iff_ne.mpr hset)
  | spin =>
    obtain rfl := Option.some.inj hs
    split
    case isTrue => exact inv_look h hk rfl rfl rfl trivial
    case isFalse hset => exact inv_look h hk rfl rfl rfl (bne_iff_ne.mpr hset)
  | testAndSet =>
    obtain rfl := Option.some.inj hs
    split
    case isTrue hstarted =>
      have hlook : Inv {s with ctors := s.ctors.set k .spin} := inv_look h hk rfl rfl rfl trivial
      rwa [← hstarted]
    case isFalse hstarted => exact inv_win h hk (Bool.eq_false_of_not_eq_true hstarted)
  | allocate =>
    obtain rfl := Option.some.inj hs
    refine inv_move h hk rfl hgrows ?_ (hgrows.pointer_sound h) rfl rfl rfl
    show s.objects.length < (s.objects ++ [false]).length
    simp
  | construct object =>
    obtain rfl := Option.some.inj hs
    refine inv_move h hk rfl hgrows (List.getElem?_set_self hsound) (hgrows.pointer_sound h) rfl ?_ rfl
    show 0 + (s.constructions + 1) + s.ctorStarted.toNat = 1 + s.constructions + s.ctorStarted.toNat
    omega
  | store object =>
    obtain rfl := Option.some.inj hs
    have hfree := stored_store h hk
    refine inv_move h hk rfl hgrows rfl (fun _ => ⟨object, rfl, hsound⟩) ?_ rfl ?_
    · show 0 + 1 + s.ctorStarted.toNat = 1 + s.stored.toNat + s.ctorStarted.toNat
      rw [hfree, Bool.toNat_false]
    · show 1 + s.registered + s.stored.toNat = 0 + s.registered + 1
      rw [hfree, Bool.toNat_false]
      omega
  | atexit =>
    obtain rfl := Option.some.inj hs
    refine inv_move h hk rfl hgrows hsound (hgrows.pointer_sound h) rfl rfl ?_
    show 0 + (s.registered + 1) + s.stored.toNat = 1 + s.registered + s.stored.toNat
    omega
  | returned | thrown => cases hs

/-! ### Runs -/

theorem step_keeps {l : Label} (h : Inv s) (hquiet : Quiet s l) (hs : step s l = some s') :
    Inv s' ∧ Grows s s' := by
  cases l with
  | call =>
    obtain rfl := Option.some.inj hs
    exact ⟨inv_call h, Grows.same rfl rfl⟩
  | go k =>
    obtain ⟨ctor, hk, hgo⟩ := Option.bind_eq_some_iff.mp hs
    exact ⟨go_inv h hk hgo, go_grows h hk hgo⟩
  | throws => exact absurd hquiet id
  | cleanUp => exact absurd hquiet id

/-- What is there stays as it is. -/
theorem run_keeps {trace : List (Singleton × Label)} (run : machine.Run s trace s') (h : Inv s)
    (hquiet : Machine.Meets Quiet trace) : Inv s' ∧ Grows s s' := by
  refine run.invariant (P := fun t => Inv t ∧ Grows s t) ⟨h, Grows.same rfl rfl⟩ ?_ hquiet
  intro t l u ht hl hu
  obtain ⟨hinv, hgrows⟩ := step_keeps ht.1 hl hu
  exact ⟨hinv, ht.2.trans hgrows⟩

/-- **One instance.** However many constructors race, `T` is constructed and `CleanUp` is
registered at most once; and a constructor that has returned sees the object, constructed,
as does every later one. -/
theorem created_once {trace rest : List (Singleton × Label)} {s t : Singleton}
    (run : machine.Run create trace s) (more : machine.Run s rest t)
    (hquiet : Machine.Meets Quiet (trace ++ rest)) :
    t.constructions ≤ 1 ∧ t.registered ≤ 1 ∧
      (Ctor.returned ∈ s.ctors → ∃ object, s.arrow = .to object ∧ s.objects[object]? = some true ∧
        t.arrow = .to object ∧ t.objects[object]? = some true) := by
  obtain ⟨htrace, hrest⟩ := List.forall_mem_append.mp hquiet
  have hinv := (run_keeps run inv_create htrace).1
  obtain ⟨hinv', hgrows⟩ := run_keeps more hinv hrest
  refine ⟨?_, ?_, fun hreturned => ?_⟩
  · exact (Nat.le.intro hinv'.built).trans (Bool.toNat_le _)
  · exact (Nat.le.intro hinv'.registered).trans (Bool.toNat_le _)
  · have hstored : s.stored = true := hinv.sound _ hreturned
    obtain ⟨object, hto, hobject⟩ := hinv.pointer hstored
    exact ⟨object, hto, hobject, (hgrows.pointer hstored).trans hto, hgrows.constructed object hobject⟩

/-- Two constructors race: one waits until the other has stored the pointer, and returns
before that one does. -/
theorem created_once_race : ∃ trace s, machine.Run create trace s ∧
    s.ctors = [.atexit, .returned] ∧ s.constructions ≤ 1 ∧ s.registered ≤ 1 ∧
    ∃ object, s.arrow = .to object ∧ s.objects[object]? = some true := by
  obtain ⟨trace, s, run, h⟩ := machine.run_of_replay create
    [.call, .call, .go 0, .go 1, .go 0, .go 1, .go 0, .go 1, .go 0, .go 0, .go 1]
    (fun e => decide (e.2.ctors = [.atexit, .returned] ∧ Machine.Meets Quiet (e.1 ++ [])))
    (by decide +kernel)
  obtain ⟨hctors, hquiet⟩ := of_decide_eq_true h
  obtain ⟨hone, hregistered, hsees⟩ := created_once run Machine.Run.nil hquiet
  obtain ⟨object, hto, hobject, -⟩ := hsees (by rw [hctors]; decide)
  exact ⟨trace, s, run, hctors, hone, hregistered, object, hto, hobject⟩

end Singleton
end PrivateCloud.Sync
