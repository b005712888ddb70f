import Mathlib.Data.Finset.Basic
import PrivateCloud.Library.Machine
import PrivateCloud.Library.OrderedSet

/-! Dispatchers and callbacks: `observer.hpp`.

Both kinds of objects are known by their addresses. A dispatcher has the set of its
subscribers and a callback a pointer back, which its constructor leaves as the memory was.
The steps are the constructors, those the compiler writes included, the destructors and
the functions a user calls; here the callbacks that `Notify` calls change nothing. A step
that reads or writes an object that is not alive, or goes through a pointer to none, is a
fault, and there is no step after it. -/
namespace PrivateCloud.Observer

/-- `m_dispatcher`. -/
inductive Link where
  /-- Not written since the constructor; `stale` is the dispatcher whose address it is, if
  it is one. -/
  | unset (stale : Option ℕ)
  | null
  | to (dispatcher : ℕ)
  deriving DecidableEq

def Link.value : Link → Option ℕ
  | .unset stale => stale
  | .null => none
  | .to dispatcher => some dispatcher

/-- `dispatchers` and `callbacks` are those alive. -/
structure State where
  dispatchers : Finset ℕ
  callbacks : Finset ℕ
  subscribers : ℕ → OrderedSet ℕ
  link : ℕ → Link
  fault : Bool

inductive Label where
  | callback (c : ℕ) (stale : Option ℕ)
  /-- The constructor that copies. -/
  | copyCallback (c original : ℕ)
  | dispatcher (d : ℕ)
  | copyDispatcher (d original : ℕ)
  | add (d c : ℕ)
  | remove (d c : ℕ)
  | notify (d : ℕ)
  | destroyCallback (c : ℕ)
  | destroyDispatcher (d : ℕ)

def init : State := ⟨∅, ∅, fun _ => .empty, fun _ => .null, false⟩

/-- `m_dispatcher` of a callback is written. -/
def setLink (s : State) (c : ℕ) (link : Link) : State :=
  if c ∈ s.callbacks then {s with link := Function.update s.link c link} else {s with fault := true}

def bindDispatcher (s : State) (c d : ℕ) : State := setLink s c (.to d)

def disConnect (s : State) (c : ℕ) : State := setLink s c .null

def setSubscribers (s : State) (d : ℕ) (subscribers : OrderedSet ℕ) : State :=
  {s with subscribers := Function.update s.subscribers d subscribers}

def add (s : State) (d c : ℕ) : State :=
  bindDispatcher (setSubscribers s d ((s.subscribers d).insert c)) c d

def remove (s : State) (d c : ℕ) : State :=
  disConnect (setSubscribers s d ((s.subscribers d).erase c)) c

/-- `m_function` of a callback is called, and changes nothing here. -/
def call (s : State) (c : ℕ) : State := if c ∈ s.callbacks then s else {s with fault := true}

def notify (s : State) (d : ℕ) : State := (s.subscribers d).elements.foldl call s

/-- A callback is constructed. -/
def newCallback (s : State) (c : ℕ) (link : Link) : State :=
  {s with callbacks := insert c s.callbacks, link := Function.update s.link c link}

/-- A dispatcher is constructed. -/
def newDispatcher (s : State) (d : ℕ) (subscribers : OrderedSet ℕ) : State :=
  {setSubscribers s d subscribers with dispatchers := insert d s.dispatchers}

/-- `~Callback`. -/
def destroyCallback (s : State) (c : ℕ) : State :=
  match (s.link c).value with
  | some d =>
    if d ∈ s.dispatchers then {remove s d c with callbacks := s.callbacks.erase c}
    else {s with fault := true}
  | none => {s with fault := true}

/-- `~Dispatcher`. -/
def destroyDispatcher (s : State) (d : ℕ) : State :=
  {(s.subscribers d).elements.foldl disConnect s with dispatchers := s.dispatchers.erase d}

/-- Constructors get fresh addresses and everybody else objects that are alive. -/
def Possible (s : State) : Label → Prop
  | .callback c _ => c ∉ s.callbacks
  | .copyCallback c original => c ∉ s.callbacks ∧ original ∈ s.callbacks
  | .dispatcher d => d ∉ s.dispatchers
  | .copyDispatcher d original => d ∉ s.dispatchers ∧ original ∈ s.dispatchers
  | .add d c | .remove d c => d ∈ s.dispatchers ∧ c ∈ s.callbacks
  | .notify d | .destroyDispatcher d => d ∈ s.dispatchers
  | .destroyCallback c => c ∈ s.callbacks

instance (s : State) : (l : Label) → Decidable (Possible s l)
  | .callback c _ | .dispatcher c => inferInstanceAs (Decidable (c ∉ _))
  | .copyCallback _ _ | .copyDispatcher _ _ | .add _ _ | .remove _ _ =>
    inferInstanceAs (Decidable (_ ∧ _))
  | .notify d | .destroyDispatcher d => inferInstanceAs (Decidable (d ∈ s.dispatchers))
  | .destroyCallback c => inferInstanceAs (Decidable (c ∈ s.callbacks))

def after (s : State) : Label → State
  | .callback c stale => newCallback s c (.unset stale)
  | .copyCallback c original => newCallback s c (s.link original)
  | .dispatcher d => newDispatcher s d .empty
  | .copyDispatcher d original => newDispatcher s d (s.subscribers original)
  | .add d c => add s d c
  | .remove d c => remove s d c
  | .notify d => notify s d
  | .destroyCallback c => destroyCallback s c
  | .destroyDispatcher d => destroyDispatcher s d

def step (s : State) (l : Label) : Option State :=
  if s.fault = false ∧ Possible s l then some (after s l) else none

def machine : Machine State Label := ⟨init, step⟩

variable {s s' : State} {l : Label} {c d : ℕ}

theorem step_cases (h : step s l = some s') : s.fault = false ∧ Possible s l ∧ s' = after s l := by
  unfold step at h
  split at h
  case isTrue hgo => exact ⟨hgo.1, hgo.2, (Option.some.inj h).symm⟩
  case isFalse => cases h

/-! ### What the loops do -/

theorem setLink_live {link : Link} (h : c ∈ s.callbacks) :
    setLink s c link = {s with link := Function.update s.link c link} := if_pos h

theorem add_live (h : c ∈ s.callbacks) : add s d c = { s with
    subscribers := Function.update s.subscribers d ((s.subscribers d).insert c)
    link := Function.update s.link c (.to d) } := setLink_live h

theorem remove_live (h : c ∈ s.callbacks) : remove s d c = { s with
    subscribers := Function.update s.subscribers d ((s.subscribers d).erase c)
    link := Function.update s.link c .null } := setLink_live h

/-- Those that are alive are disconnected; one that is not is a fault. -/
theorem foldl_disConnect {cs : List ℕ} : cs.foldl disConnect s = { s with
    link := fun c => if c ∈ cs ∧ c ∈ s.callbacks then .null else s.link c
    fault := s.fault || cs.any (· ∉ s.callbacks) } := by
  induction cs generalizing s with
  | nil => simp
  | cons c cs ih =>
    rw [List.foldl_cons, ih]
    by_cases hc : c ∈ s.callbacks
    · rw [disConnect, setLink_live hc]
      congr 1
      · funext x
        by_cases hx : x = c
        · subst hx
          simp [hc]
        · simp [hx]
      · simp [hc]
    · rw [disConnect, setLink, if_neg hc]
      congr 1
      · funext x
        by_cases hx : x = c
        · subst hx
          simp [hc]
        · simp [hx]
      · simp [hc]

theorem foldl_call {cs : List ℕ} :
    cs.foldl call s = {s with fault := s.fault || cs.any (· ∉ s.callbacks)} := by
  induction cs generalizing s with
  | nil => simp
  | cons c cs ih =>
    rw [List.foldl_cons, ih]
    by_cases hc : c ∈ s.callbacks
    · simp [call, hc]
    · simp [call, hc]

theorem notify_eq : notify s d =
    {s with fault := s.fault || (s.subscribers d).elements.any (· ∉ s.callbacks)} := foldl_call

theorem notify_live (h : ∀ c ∈ s.subscribers d, c ∈ s.callbacks) : notify s d = s := by
  have hnone : (s.subscribers d).elements.any (· ∉ s.callbacks) = false := by
    simpa using fun c hc => h c (OrderedSet.mem_def.mpr hc)
  rw [notify_eq, hnone, Bool.or_false]

theorem destroyDispatcher_eq : destroyDispatcher s d = { s with
    dispatchers := s.dispatchers.erase d
    link := fun c => if c ∈ s.subscribers d ∧ c ∈ s.callbacks then .null else s.link c
    fault := s.fault || (s.subscribers d).elements.any (· ∉ s.callbacks) } := by
  rw [destroyDispatcher, foldl_disConnect]
  rfl

end PrivateCloud.Observer
