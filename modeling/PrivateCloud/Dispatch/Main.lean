import PrivateCloud.Dispatch.Process
import PrivateCloud.Dispatch.SetUp
import PrivateCloud.Reactor.Reactor

/-! The program: `main` of `atlas_iots.cpp`.

`main` registers a handler for each of the nine descriptors it has set up and runs the
reactor, whose handlers are the server's. With nine descriptors the reactor, the pool's
threads and the nodes together are the local server (`main_refines_local`).

The child that comes back from `NbdDevOpen` has not got nine: there the first node's handler
takes the place of the NBD socket's, and no request is ever taken (`setUp_distinct_iff`). -/
namespace PrivateCloud.Dispatch.Main
open Nbd Reactor

/-! ### The reactor and its handlers -/

/-- What is registered: `NbdRequestsHandle` with the array of the descriptors, `IotHandle`
with the descriptor of one node. -/
inductive Handler where
  | nbdRequestsHandle
  | iotHandle (i : ℕ)
  deriving DecidableEq

def handlerOf : ℕ → Handler
  | 0 => .nbdRequestsHandle
  | i + 1 => .iotHandle (i + 1)

/-- The registrations for the first `k` descriptors, in the order `main` makes them. -/
def register (fd : ℕ → ℕ) : ℕ → Reactor.State Handler
  | 0 => Reactor.init
  | k + 1 => registerReadHandler (fd k) (handlerOf k) (register fd k)

/-- A descriptor has the handler that was registered for it last. -/
theorem register_last {fd : ℕ → ℕ} {k i : ℕ} (hi : i < k) (hlast : ∀ j < k, i < j → fd j ≠ fd i) :
    (register fd k).handlers (fd i) = some (some (handlerOf i)) := by
  induction k with
  | zero => exact absurd hi (Nat.not_lt_zero i)
  | succ k ih =>
    rcases Nat.lt_succ_iff_lt_or_eq.mp hi with hlt | rfl
    · have hne : (fd i : ℤ) ≠ fd k := fun heq =>
        hlast k (Nat.lt_succ_self k) hlt (by exact_mod_cast heq.symm)
      exact (Function.update_of_ne hne _ _).trans (ih hlt fun j hj => hlast j (Nat.lt_succ_of_lt hj))
    · exact Function.update_self ..

/-- A handler that is there was registered, and no other after it. -/
theorem register_handlers {fd : ℕ → ℕ} {k : ℕ} {x : ℤ} {func : Handler}
    (h : (register fd k).handlers x = some (some func)) :
    ∃ i < k, func = handlerOf i ∧ ∀ j < k, i < j → fd j ≠ fd i := by
  suffices hfound : ∃ i < k, x = fd i ∧ func = handlerOf i ∧ ∀ j < k, i < j → fd j ≠ fd i by
    obtain ⟨i, hi, -, hfunc, hlast⟩ := hfound
    exact ⟨i, hi, hfunc, hlast⟩
  induction k with
  | zero => cases h
  | succ k ih =>
    have h : Function.update (register fd k).handlers (fd k) (some (some (handlerOf k))) x =
        some (some func) := h
    by_cases hx : x = fd k
    · rw [hx, Function.update_self] at h
      exact ⟨k, Nat.lt_succ_self k, hx, (Option.some.inj (Option.some.inj h)).symm,
        fun j hj hlt => by omega⟩
    · rw [Function.update_of_ne hx] at h
      obtain ⟨i, hi, hxi, hfunc, hlast⟩ := ih h
      refine ⟨i, Nat.lt_succ_of_lt hi, hxi, hfunc, fun j hj hlt => ?_⟩
      rcases Nat.lt_succ_iff_lt_or_eq.mp hj with hj | rfl
      · exact hlast j hj hlt
      · exact fun heq => hx (hxi.trans (by exact_mod_cast heq.symm))

/-- The reactor's thread and the process it serves. -/
structure Program where
  reactor : Reactor.State Handler
  process : Process

inductive Turn where
  /-- `WaitForEvent`. -/
  | select (outcome : Select.Outcome)
  /-- The reactor calls `NbdRequestsHandle`, which reads this from the NBD socket. -/
  | nbd (message : NbdMessage)
  /-- The reactor calls `IotHandle` for node `i`, whose socket is cut like this. -/
  | iot (i : ℕ) (cuts : ℕ → ℕ)
  /-- What the reactor does not call: the rest of `Distribute`, the workers, the nodes. -/
  | act (a : Act)

def Turn.takes : Turn → List NbdMessage
  | .nbd message => [message]
  | .act a => a.takes
  | _ => []

/-- `select` comes back with nothing to read. -/
def Turn.idle : Turn → Bool
  | .select (.ready fds) => fds = ∅
  | .select (.error _) => true
  | .nbd _ | .iot _ _ | .act _ => false

/-- `select` reports the NBD socket: the client has sent something. -/
def Turn.announces (fd : ℕ → ℕ) : Turn → Bool
  | .select (.ready fds) => fd 0 ∈ fds
  | .select (.error _) | .nbd _ | .iot _ _ | .act _ => false

/-- A handler begins with this. -/
def called : Act → Bool
  | .nbd _ | .iot _ _ => true
  | _ => false

namespace Program

/-- The handler the next turn of `Run`'s inner loop calls. -/
def next (s : Program) : Option Handler := (s.reactor.handlers s.reactor.monit.getNextReadFd.1).join

/-- The reactor asks `select` when the handlers it called are done, and calls the handler it
comes to. -/
def permits (s : Program) : Turn → Bool
  | .select _ => s.process.server.queueing.isEmpty
  | .nbd _ => s.next = some .nbdRequestsHandle
  | .iot i _ => s.next = some (.iotHandle i)
  | .act a => !called a

def toReactor : Turn → Option (Reactor.Label Handler)
  | .select outcome => some (.waitForEvent outcome)
  | .nbd _ | .iot _ _ => some .call
  | .act _ => none

def toProcess : Turn → Option Act
  | .select _ => none
  | .nbd message => some (.nbd message)
  | .iot i cuts => some (.iot i cuts)
  | .act a => some a

def step (s : Program) (turn : Turn) : Option Program :=
  if s.permits turn then
    match Machine.maybe Reactor.step s.reactor (toReactor turn),
      Machine.maybe Process.step s.process (toProcess turn) with
    | some reactor, some process => some ⟨reactor, process⟩
    | _, _ => none
  else none

def init (fd : ℕ → ℕ) (numOfThreads : ℕ) : Program :=
  ⟨register fd (NUMOFSOC + 1), Process.init numOfThreads⟩

def machine (fd : ℕ → ℕ) (numOfThreads : ℕ) : Machine Program Turn := ⟨init fd numOfThreads, step⟩

/-- `select` reports a node's socket when there is something to read. -/
def Truthful (fd : ℕ → ℕ) (s : Program) : Turn → Prop
  | .select (.ready fds) => ∀ i ≤ NUMOFSOC, 1 ≤ i → fd i ∈ fds → s.process.server.stream i ≠ []
  | _ => True

/-- What client, nodes, sockets and `select` are assumed to do. -/
structure Allowed (fd : ℕ → ℕ) (s : Program) (turn : Turn) : Prop where
  truthful : Truthful fd s turn
  process : ∀ a ∈ toProcess turn, s.process.Allowed a

/-- The requests a run took, in the order they came in. -/
def arrivals (trace : List (Program × Turn)) : List NbdMessage :=
  (trace.map Prod.snd).flatMap Turn.takes

variable {s s' : Program} {turn : Turn}

theorem step_cases (h : s.step turn = some s') : s.permits turn = true ∧
    Machine.maybe Reactor.step s.reactor (toReactor turn) = some s'.reactor ∧
      Machine.maybe Process.step s.process (toProcess turn) = some s'.process := by
  simp only [step] at h
  split at h
  case isFalse => cases h
  case isTrue hpermits =>
    split at h
    case h_1 reactor process hreactor hprocess =>
      obtain rfl := Option.some.inj h
      exact ⟨hpermits, hreactor, hprocess⟩
    case h_2 => cases h

theorem step_of {reactor : Reactor.State Handler} {process : Process} (hpermits : s.permits turn = true)
    (hreactor : Machine.maybe Reactor.step s.reactor (toReactor turn) = some reactor)
    (hprocess : Machine.maybe Process.step s.process (toProcess turn) = some process) :
    s.step turn = some ⟨reactor, process⟩ := by
  simp only [step, hpermits, if_true, hreactor, hprocess]

/-- The process's part of a run is a run of it. -/
theorem run_process {fd : ℕ → ℕ} {n : ℕ} {trace : List (Program × Turn)}
    (run : (machine fd n).Run (init fd n) trace s) :
    (Process.machine n).Run (Process.init n)
      (Machine.project process (fun _ turn => toProcess turn) trace) s.process :=
  run.project process (fun _ turn => toProcess turn) fun _ _ _ hs => (step_cases hs).2.2

theorem arrivals_process (trace : List (Program × Turn)) :
    Process.arrivals (Machine.project process (fun _ turn => toProcess turn) trace) = arrivals trace := by
  induction trace with
  | nil => rfl
  | cons e trace ih =>
    obtain ⟨s, turn⟩ := e
    have htakes : (toProcess turn).elim [] Act.takes = turn.takes := by
      cases turn <;> rfl
    have hproject : Process.arrivals
        (Machine.project process (fun _ turn => toProcess turn) ((s, turn) :: trace)) =
          (toProcess turn).elim [] Act.takes ++
            Process.arrivals (Machine.project process (fun _ turn => toProcess turn) trace) := by
      cases hl : toProcess turn <;> simp [Machine.project, Process.arrivals, hl]
    rw [hproject, htakes, ih]
    rfl

/-! ### What the reactor comes to -/

/-- The first `k` descriptors are registered, and no other. -/
structure Routed (fd : ℕ → ℕ) (k : ℕ) (r : Reactor.State Handler) : Prop where
  watched : Watched r
  round : Round r
  handler : ∀ i < k, r.handlers (fd i) = some (some (handlerOf i))
  master : ∀ x ∈ r.monit.master, ∃ i < k, x = fd i
  calls : ∀ call ∈ r.calls, ∃ i < k, call = ((fd i : ℤ), some (handlerOf i))

section Routed
variable {fd : ℕ → ℕ} {r r' : Reactor.State Handler}

theorem routed_register (hnine : ∀ i ≤ NUMOFSOC, ∀ j ≤ NUMOFSOC, fd i = fd j → i = j)
    (hlow : ∀ i ≤ NUMOFSOC, fd i < FD_SETSIZE) (k : ℕ) (hk : k ≤ NUMOFSOC + 1) :
    Routed fd k (register fd k) ∧ (register fd k).n = 0 ∧ (register fd k).calls = [] := by
  induction k with
  | zero => exact ⟨⟨watched_init, round_init, nofun, nofun, nofun⟩, rfl, rfl⟩
  | succ k ih =>
    obtain ⟨h, hn, hcalls⟩ := ih (Nat.le_of_succ_le hk)
    have hk : k ≤ NUMOFSOC := Nat.le_of_succ_le_succ hk
    refine ⟨⟨watched_register h.watched (hlow k hk), round_register h.round, ?_, ?_, ?_⟩, hn, hcalls⟩
    · refine fun i hi => register_last hi fun j hj hlt heq => ?_
      have hij := hnine j (by omega) i (by omega) heq
      omega
    · intro x hx
      rcases Finset.mem_insert.mp hx with rfl | hx
      · exact ⟨k, Nat.lt_succ_self k, rfl⟩
      · obtain ⟨i, hi, hxi⟩ := h.master x hx
        exact ⟨i, Nat.lt_succ_of_lt hi, hxi⟩
    · intro call hcall
      obtain ⟨i, hi, hcall⟩ := h.calls call hcall
      exact ⟨i, Nat.lt_succ_of_lt hi, hcall⟩

variable {k : ℕ}

/-- In a round the reactor comes to one of the descriptors that are left, with its handler. -/
theorem Routed.dispatch (h : Routed fd k r) (hn : 0 < r.n) :
    ∃ i < k, fd i ∈ r.monit.readSet ∧ r.monit.getNextReadFd.1 = fd i ∧ Reactor.step r .call = some { r with
      monit := {r.monit with readSet := r.monit.readSet.erase (fd i)}
      n := r.n - 1
      calls := r.calls ++ [((fd i : ℤ), some (handlerOf i))] } := by
  obtain ⟨x, hx, func, -, hfunc, hnext, heq⟩ := dispatch_eq h.watched h.round hn
  have hready : x ∈ r.ready := (h.round.split (by omega) x).mpr (Or.inr hx)
  obtain ⟨i, hi, rfl⟩ := h.master x (h.round.watched hready)
  obtain rfl : handlerOf i = func := by
    rw [h.handler i hi] at hfunc
    exact Option.some.inj (Option.some.inj hfunc)
  refine ⟨i, hi, hx, hnext, ?_⟩
  rw [← heq]
  simp [Reactor.step, h.round.alive, hn]

theorem Routed.next (h : Routed fd k s.reactor) {i : ℕ} (hi : i < k)
    (hnext : s.reactor.monit.getNextReadFd.1 = fd i) : s.next = some (handlerOf i) := by
  rw [Program.next, hnext, h.handler i hi]
  rfl

theorem routed_select {outcome : Select.Outcome} (h : Routed fd k r)
    (hs : Reactor.step r (.waitForEvent outcome) = some r') : Routed fd k r' := by
  obtain ⟨hwatched, hround⟩ := step_kept ⟨h.watched, h.round⟩ hs
  obtain ⟨-, -, -, ⟨left, -, rfl⟩ | ⟨fds, -, rfl⟩⟩ := waitForEvent_cases hs
  · exact ⟨hwatched, hround, h.handler, h.master, nofun⟩
  · exact ⟨hwatched, hround, h.handler, h.master, nofun⟩

theorem routed_call (h : Routed fd k r) (hs : Reactor.step r .call = some r') : Routed fd k r' := by
  obtain ⟨hwatched, hround⟩ := step_kept ⟨h.watched, h.round⟩ hs
  obtain ⟨-, hn, -⟩ := call_cases hs
  obtain ⟨i, hi, -, -, hcall⟩ := h.dispatch hn
  obtain rfl := Option.some.inj (hcall.symm.trans hs)
  refine ⟨hwatched, hround, h.handler, h.master, fun call hmem => ?_⟩
  rcases List.mem_append.mp hmem with hmem | hmem
  · exact h.calls call hmem
  · exact ⟨i, hi, List.mem_singleton.mp hmem⟩

end Routed

/-! ### What the nodes' sockets hold -/

section Streams
variable {t t' : System}

/-- A message goes to one of the nodes. -/
theorem message_node (h : System.Inv t) {m : Message} (hm : m ∈ t.wire) :
    1 ≤ m.sockfd ∧ m.sockfd ≤ NUMOFSOC := by
  have hsock := (h.message m hm).sockfd
  rw [Host.RequestHost.infoAt_eq] at hsock
  have hmod : ∀ x : UInt32, (x % Host.numOfIot).toNat < 8 := fun x => by
    rw [UInt32.toNat_mod]
    exact Nat.mod_lt _ (by decide)
  have hlt := hmod (((t.host m.owner).firstFragIndx +
    Int32.ofNat (m.header.fragmentUid.toNat % 8)).toUInt32)
  simp only at hsock
  simp only [NUMOFSOC]
  omega

/-- Only nodes send, and only a handler takes from a socket. -/
theorem stream_step (h : System.Inv t) {l : Label} (hs : t.step l = some t') :
    (∀ j, t'.stream j ≠ [] → t.stream j ≠ [] ∨ 1 ≤ j ∧ j ≤ NUMOFSOC) ∧
      ∀ j, (∀ cuts, l ≠ .iot j cuts) → t.stream j ≠ [] → t'.stream j ≠ [] := by
  cases l with
  | nbd message =>
    obtain ⟨-, rfl⟩ := System.nbd_cases hs
    exact ⟨fun j hj => Or.inl hj, fun j _ hj => hj⟩
  | async =>
    obtain ⟨task, rest, -, rfl⟩ := System.async_cases hs
    exact ⟨fun j hj => Or.inl hj, fun j _ hj => hj⟩
  | test k seen =>
    obtain ⟨task, -, -, ⟨-, rfl⟩ | ⟨-, rfl⟩⟩ := System.test_cases hs
    · exact ⟨fun j hj => Or.inl hj, fun j _ hj => hj⟩
    · exact ⟨fun j hj => Or.inl hj, fun j _ hj => hj⟩
  | send k junk =>
    obtain ⟨task, command, -, -, -, rfl⟩ := System.send_cases hs
    exact ⟨fun j hj => Or.inl hj, fun j _ hj => hj⟩
  | answer k header data =>
    obtain ⟨m, hk, hs'⟩ := System.answer_cases hs
    have hnode := message_node h (List.mem_of_getElem? hk)
    have hstream : t'.stream = Function.update t.stream m.sockfd
        (t.stream m.sockfd ++ (header.store ++ data)) := by
      rw [hs']
    rw [hstream]
    constructor
    · intro j hj
      by_cases hjm : j = m.sockfd
      · exact Or.inr (hjm ▸ hnode)
      · exact Or.inl (by rwa [Function.update_of_ne hjm] at hj)
    · intro j _ hj
      by_cases hjm : j = m.sockfd
      · subst hjm
        rw [Function.update_self]
        exact List.append_ne_nil_of_left_ne_nil hj _
      · rwa [Function.update_of_ne hjm]
  | iot i cuts =>
    obtain ⟨-, hready, -, bytes, hstream⟩ := Process.iot_frame hs
    rw [hstream]
    constructor
    · intro j hj
      by_cases hji : j = i
      · exact Or.inl (hji ▸ hready)
      · exact Or.inl (by rwa [Function.update_of_ne hji] at hj)
    · intro j hne hj
      have hji : j ≠ i := fun heq => hne cuts (heq ▸ rfl)
      rwa [Function.update_of_ne hji]

/-- A reply is there whole: `IotHandle` reads it, however the socket is cut. -/
theorem iot_possible (h : System.Inv t) (hq : t.queueing = []) {i : ℕ} (hstream : t.stream i ≠ [])
    {cuts : ℕ → ℕ} (hcut : 4 ≤ cuts 0) : ∃ t', t.step (.iot i cuts) = some t' := by
  obtain ⟨r, rest, cuts', -, -, hiot⟩ := h.iotHandle hstream hcut
  simp only [System.step, System.iot, hq, hstream, ne_eq, not_false_eq_true, and_self, if_true, hiot]
  exact ⟨_, rfl⟩

variable {p p' : Process} {a : Act}

/-- What a step of the process is to the sockets. -/
theorem server_kept (h : System.Inv p.server) (hallowed : p.Allowed a) (hs : p.step a = some p') :
    System.Inv p'.server ∧
      (∀ j, p'.server.stream j ≠ [] → p.server.stream j ≠ [] ∨ 1 ≤ j ∧ j ≤ NUMOFSOC) ∧
        ∀ j, (∀ cuts, a ≠ .iot j cuts) → p.server.stream j ≠ [] → p'.server.stream j ≠ [] := by
  obtain ⟨hserver, -, -⟩ := Process.step_cases hs
  cases hl : p.toServer a with
  | none =>
    rw [hl] at hserver
    rw [← Option.some.inj hserver]
    exact ⟨h, fun j hj => Or.inl hj, fun j _ hj => hj⟩
  | some l =>
    rw [hl] at hserver
    have hserver : p.server.step l = some p'.server := hserver
    have hc := hallowed l hl
    obtain ⟨hhonest, hstale⟩ := hc.rules h
    obtain ⟨hnew, hkept⟩ := stream_step h hserver
    refine ⟨System.inv_step h hhonest hc.few hc.peeks hstale hserver, hnew, fun j hne hj => hkept j ?_ hj⟩
    rintro cuts rfl
    cases a with
    | iot i cuts' =>
      obtain ⟨rfl, rfl⟩ := Label.iot.inj (Option.some.inj hl)
      exact hne cuts' rfl
    | _ => cases hl

end Streams

/-! ### The run -/

/-- The reactor is on the nine descriptors, and what `select` has reported of a node is still
there when the reactor comes to it. -/
structure Serving (fd : ℕ → ℕ) (s : Program) : Prop where
  routed : Routed fd (NUMOFSOC + 1) s.reactor
  inv : System.Inv s.process.server
  nodes : ∀ j, s.process.server.stream j ≠ [] → 1 ≤ j ∧ j ≤ NUMOFSOC
  filled : 0 < s.reactor.n → ∀ i ≤ NUMOFSOC, 1 ≤ i → fd i ∈ s.reactor.monit.readSet →
    s.process.server.stream i ≠ []

theorem handlerOf_iot {i j : ℕ} (h : handlerOf j = .iotHandle i) : j = i ∧ 1 ≤ j := by
  cases j with
  | zero => cases h
  | succ j =>
    obtain rfl := Handler.iotHandle.inj h
    exact ⟨rfl, Nat.le_add_left 1 j⟩

section Serving
variable {fd : ℕ → ℕ}

theorem serving_init (hnine : ∀ i ≤ NUMOFSOC, ∀ j ≤ NUMOFSOC, fd i = fd j → i = j)
    (hlow : ∀ i ≤ NUMOFSOC, fd i < FD_SETSIZE) (n : ℕ) : Serving fd (init fd n) := by
  obtain ⟨hrouted, hn, -⟩ := routed_register hnine hlow (NUMOFSOC + 1) (Nat.le_refl _)
  refine ⟨hrouted, System.inv_init, fun j hj => absurd rfl hj, fun hpos => ?_⟩
  have hn : (init fd n).reactor.n = 0 := hn
  omega

/-- The reactor calls a handler: it goes to the next descriptor and leaves the others in
the set, with what there is in their sockets. -/
theorem serving_call (h : Serving fd s) {a : Act} (hallowed : s.process.Allowed a)
    (hreactor : Reactor.step s.reactor .call = some s'.reactor) (hprocess : s.process.step a = some s'.process)
    (hcalled : ∀ i ≤ NUMOFSOC, s.next = some (handlerOf i) → ∀ j ≤ NUMOFSOC, 1 ≤ j → j ≠ i →
      ∀ cuts, a ≠ .iot j cuts) : Serving fd s' := by
  obtain ⟨hinv, hnew, hkept⟩ := server_kept h.inv hallowed hprocess
  refine ⟨routed_call h.routed hreactor, hinv, ?_, fun hpos j hj hone hmem => ?_⟩
  · intro j hj
    rcases hnew j hj with hold | hnode
    · exact h.nodes j hold
    · exact hnode
  · obtain ⟨-, hn, -⟩ := call_cases hreactor
    obtain ⟨i, hi, -, hnext, hcall⟩ := h.routed.dispatch hn
    rw [← Option.some.inj (hcall.symm.trans hreactor)] at hmem
    obtain ⟨hne, hmem⟩ := Finset.mem_erase.mp hmem
    have hji : j ≠ i := fun heq => hne (heq ▸ rfl)
    exact hkept j (hcalled i (Nat.le_of_lt_succ hi) (h.routed.next hi hnext) j hj hone hji)
      (h.filled hn j hj hone hmem)

theorem serving_step (h : Serving fd s) (hallowed : Allowed fd s turn) (hs : s.step turn = some s') :
    Serving fd s' := by
  obtain ⟨hpermits, hreactor, hprocess⟩ := step_cases hs
  cases turn with
  | select outcome =>
    have hprocess : s.process = s'.process := Option.some.inj hprocess
    refine ⟨routed_select h.routed hreactor, hprocess ▸ h.inv, hprocess ▸ h.nodes, ?_⟩
    rw [← hprocess]
    obtain ⟨-, -, -, ⟨left, rfl, heq⟩ | ⟨fds, rfl, heq⟩⟩ := waitForEvent_cases hreactor
    · rw [heq]
      intro hpos
      have hpos : (0 : ℤ) < -1 := hpos
      omega
    · rw [heq]
      exact fun _ i hi hone hmem => hallowed.truthful i hi hone hmem
  | nbd message =>
    exact serving_call h (hallowed.process _ rfl) hreactor hprocess fun i _ _ j _ _ _ cuts => nofun
  | iot i cuts =>
    apply serving_call h (hallowed.process _ rfl) hreactor hprocess
    intro k hk hnext j hj hone hjk cuts' heq
    obtain ⟨rfl, rfl⟩ := Act.iot.inj heq
    have hnext' : s.next = some (.iotHandle i) := of_decide_eq_true hpermits
    exact hjk (handlerOf_iot (Option.some.inj (hnext.symm.trans hnext'))).1.symm
  | act a =>
    obtain ⟨hinv, hnew, hkept⟩ := server_kept h.inv (hallowed.process _ rfl) hprocess
    have hreactor : s.reactor = s'.reactor := Option.some.inj hreactor
    refine ⟨hreactor ▸ h.routed, hinv, ?_, ?_⟩
    · intro j hj
      rcases hnew j hj with hold | hnode
      · exact h.nodes j hold
      · exact hnode
    · rw [← hreactor]
      intro hpos i hi hone hmem
      refine hkept i (fun cuts heq => ?_) (h.filled hpos i hi hone hmem)
      subst heq
      cases hpermits

theorem run_serving {n : ℕ} {trace : List (Program × Turn)} (run : (machine fd n).Run (init fd n) trace s)
    (hstart : Serving fd (init fd n)) (hc : Machine.Meets (Allowed fd) trace) : Serving fd s :=
  run.invariant hstart (fun _ _ _ h hallowed hs => serving_step h hallowed hs) hc

/-- A handler of the nine that the reactor comes to can begin at once: there is a reply to
read, or it is the NBD socket's. -/
theorem Serving.begins (h : Serving fd s) (hn : 0 < s.reactor.n) (hq : s.process.server.queueing = []) :
    ∃ i ≤ NUMOFSOC, s.next = some (handlerOf i) ∧
      (i = 0 → ∀ message, ∃ s', s.step (.nbd message) = some s') ∧
        (1 ≤ i → ∀ cuts, 4 ≤ cuts 0 → ∃ s', s.step (.iot i cuts) = some s') := by
  obtain ⟨i, hi, hmem, hfd, hcall⟩ := h.routed.dispatch hn
  have hnext := h.routed.next hi hfd
  have hi : i ≤ NUMOFSOC := Nat.le_of_lt_succ hi
  refine ⟨i, hi, hnext, ?_, fun hone cuts hcut => ?_⟩
  · rintro rfl message
    have hpermits : s.permits (.nbd message) = true := decide_eq_true hnext
    have hserver : ∃ server, s.process.server.step (.nbd message) = some server := by
      simp only [System.step, System.nbd, hq, if_true]
      exact ⟨_, rfl⟩
    obtain ⟨server, hserver⟩ := hserver
    exact ⟨_, step_of hpermits hcall (Process.step_of (a := .nbd message) hserver rfl)⟩
  · have hpermits : s.permits (.iot i cuts) = true := by
      obtain ⟨k, rfl⟩ := Nat.exists_eq_add_of_le' hone
      exact decide_eq_true hnext
    obtain ⟨server, hserver⟩ := iot_possible h.inv hq (h.filled hn i hi hone hmem) hcut
    exact ⟨_, step_of hpermits hcall (Process.step_of (a := .iot i cuts) hserver rfl)⟩

/-- A turn that does something and waits for nobody: it is allowed, takes no request, and if
it is a `select`, this reports nodes and not the client. -/
def Moves (fd : ℕ → ℕ) (s : Program) : Prop :=
  ∃ turn s', Allowed fd s turn ∧ s.step turn = some s' ∧ turn.takes = [] ∧ turn.idle = false ∧
    turn.announces fd = false

/-- Between two rounds `select` can report a node that has something to be read. -/
theorem Serving.select_moves (h : Serving fd s)
    (hnine : ∀ i ≤ NUMOFSOC, ∀ j ≤ NUMOFSOC, fd i = fd j → i = j) (hn : ¬0 < s.reactor.n)
    (hq : s.process.server.queueing = []) {i : ℕ} (hstream : s.process.server.stream i ≠ []) :
    Moves fd s := by
  obtain ⟨hone, hi⟩ := h.nodes i hstream
  have hwatched : fd i ∈ s.reactor.monit.master := by
    by_contra habsent
    have hnone := h.routed.watched.absent (fd i) fun k hk heq => by
      have hfd : fd i = k := by exact_mod_cast heq
      exact habsent (hfd ▸ hk)
    rw [h.routed.handler i (Nat.lt_succ_of_le hi)] at hnone
    cases hnone
  have hwithin : s.reactor.monit.WithinWatched (.ready {fd i}) := by
    intro x hx
    rw [Finset.mem_singleton.mp hx]
    exact ⟨hwatched, Nat.lt_succ_of_le (h.routed.watched.reach _ hwatched)⟩
  have hreactor : ∃ reactor, Reactor.step s.reactor (.waitForEvent (.ready {fd i})) = some reactor := by
    simp only [Reactor.step, h.routed.round.alive, hn, hwithin, not_false_eq_true, and_self, if_true,
      Bool.false_eq_true, if_false]
    exact ⟨_, rfl⟩
  obtain ⟨reactor, hreactor⟩ := hreactor
  have hpermits : s.permits (.select (.ready {fd i})) = true := List.isEmpty_iff.mpr hq
  have hnone : ∀ a ∈ toProcess (.select (.ready {fd i})), s.process.Allowed a := fun a ha => by cases ha
  refine ⟨.select (.ready {fd i}), _, ⟨?_, hnone⟩, step_of hpermits hreactor rfl, rfl, ?_, ?_⟩
  · intro j hj _ hmem
    rw [hnine j hj i hi (Finset.mem_singleton.mp hmem)]
    exact hstream
  · exact decide_eq_false (p := ({fd i} : Finset ℕ) = ∅) (Finset.singleton_ne_empty _)
  · refine decide_eq_false fun hmem => ?_
    have hzero := hnine 0 (Nat.zero_le _) i hi (Finset.mem_singleton.mp hmem)
    omega

/-- **The reactor does not stop the process**: where that has something to do the program
has, or is reading a request that `select` has announced. -/
theorem Serving.progress (h : Serving fd s)
    (hnine : ∀ i ≤ NUMOFSOC, ∀ j ≤ NUMOFSOC, fd i = fd j → i = j) (hmoves : Process.Moves s.process) :
    Moves fd s ∨ 0 < s.reactor.n ∧ s.next = some .nbdRequestsHandle := by
  obtain ⟨a, p', hallowed, hs, htakes⟩ := hmoves
  by_cases hcalled : called a = true
  · cases a with
    | nbd message => cases htakes
    | iot i cuts =>
      obtain ⟨hserver, -, -⟩ := Process.step_cases hs
      obtain ⟨hq, hstream, -⟩ := Process.iot_frame hserver
      by_cases hn : 0 < s.reactor.n
      · obtain ⟨k, hk, hnext, -, hbegins⟩ := h.begins hn hq
        cases k with
        | zero => exact Or.inr ⟨hn, hnext⟩
        | succ k =>
          obtain ⟨s', hs'⟩ := hbegins (Nat.le_add_left 1 k) (fun _ => 4) (Nat.le_refl 4)
          refine Or.inl ⟨.iot (k + 1) fun _ => 4, s', ⟨trivial, ?_⟩, hs', rfl, rfl, rfl⟩
          intro a ha
          obtain rfl := Option.some.inj ha
          have hcut : System.PeeksWhole s.process.server (.iot (k + 1) fun _ => 4) := Nat.le_refl 4
          exact Process.allowed_of rfl ⟨trivial, trivial, trivial, hcut, trivial⟩
      · exact Or.inl (h.select_moves hnine hn hq hstream)
    | _ => cases hcalled
  · have hpermits : s.permits (.act a) = true := by
      simp only [permits, Bool.not_eq_eq_eq_not, Bool.not_true]
      exact Bool.eq_false_iff.mpr hcalled
    refine Or.inl ⟨.act a, _, ⟨trivial, ?_⟩, step_of hpermits rfl hs, htakes, rfl, rfl⟩
    intro a' ha'
    obtain rfl := Option.some.inj ha'
    exact hallowed

end Serving

/-! ### How much there is left to do -/

/-- The process's steps that are left, each with a `select` before it. -/
def left (s : Program) : ℕ := 2 * s.process.work + if 0 < s.reactor.n then 0 else 1

/-- A `select` that reports something begins a round. -/
theorem left_select {outcome : Select.Outcome} (hs : s.step (.select outcome) = some s') :
    s'.process = s.process ∧ s'.left + (!(Turn.select outcome).idle).toNat ≤ s.left := by
  obtain ⟨-, hreactor, hprocess⟩ := step_cases hs
  have hsame : s.process = s'.process := Option.some.inj hprocess
  refine ⟨hsame.symm, ?_⟩
  rw [left, left, ← hsame]
  obtain ⟨-, hn, -, ⟨fds, rfl, heq⟩ | ⟨fds, rfl, heq⟩⟩ := waitForEvent_cases hreactor
  · rw [heq, if_neg hn]
    exact Nat.le_refl _
  · rw [heq, if_neg hn]
    by_cases hempty : fds = ∅
    · subst hempty
      exact Nat.le_refl _
    · have hsome : 0 < fds.card := Finset.card_pos.mpr (Finset.nonempty_iff_ne_empty.mpr hempty)
      have hpos : (0 : ℤ) < fds.card := by exact_mod_cast hsome
      simp only [Turn.idle, hempty, hpos, if_true, decide_false, Bool.not_false, Bool.toNat_true]
      exact Nat.le_refl _

/-- A turn of the process leaves less for it to do. -/
theorem left_process {ms : List NbdMessage} (hsim : System.Sim s.process.server ms) {a : Act}
    (hallowed : s.process.Allowed a) (htakes : a.takes = [])
    (hprocess : s.process.step a = some s'.process) :
    System.Sim s'.process.server ms ∧ s'.left + 1 ≤ s.left := by
  obtain ⟨hsim', hless⟩ := Process.work_step hsim hallowed htakes hprocess
  refine ⟨hsim', ?_⟩
  rw [left, left]
  split <;> split <;> omega

/-- **A turn that takes no request leaves less to do**, unless it is a `select` that reports
nothing. -/
theorem left_step {ms : List NbdMessage} (hsim : System.Sim s.process.server ms) {fd : ℕ → ℕ}
    (hallowed : Allowed fd s turn) (htakes : turn.takes = []) (hs : s.step turn = some s') :
    System.Sim s'.process.server ms ∧ s'.left + (!turn.idle).toNat ≤ s.left := by
  cases turn with
  | select outcome =>
    obtain ⟨hsame, hleft⟩ := left_select hs
    exact ⟨hsame ▸ hsim, hleft⟩
  | nbd message => cases htakes
  | iot i cuts =>
    obtain ⟨-, -, hprocess⟩ := step_cases hs
    exact left_process hsim (hallowed.process _ rfl) rfl hprocess
  | act a =>
    obtain ⟨-, -, hprocess⟩ := step_cases hs
    exact left_process hsim (hallowed.process _ rfl) htakes hprocess

/-- The program serves the requests it was given. -/
structure Runs (fd : ℕ → ℕ) (n : ℕ) (s : Program) (ms : List NbdMessage) : Prop where
  /-- The process is the local server. -/
  process : Process.Serves n s.process ms
  /-- The reactor calls the handlers of the nine descriptors, each for its own… -/
  calls : ∀ call ∈ s.reactor.calls, ∃ i ≤ NUMOFSOC, call = ((fd i : ℤ), some (handlerOf i))
  /-- …and one that it comes to has what it reads. -/
  begins : 0 < s.reactor.n → s.process.server.queueing = [] → ∃ i ≤ NUMOFSOC,
    s.next = some (handlerOf i) ∧ (i = 0 → ∀ message, ∃ s', s.step (.nbd message) = some s') ∧
      (1 ≤ i → ∀ cuts, 4 ≤ cuts 0 → ∃ s', s.step (.iot i cuts) = some s')
  /-- Nothing that is left to do waits for anything but a request that `select` has announced… -/
  progress : System.Idle s.process.server ∨ Moves fd s ∨
    0 < s.reactor.n ∧ s.next = some .nbdRequestsHandle
  /-- …and without new requests all is done in so many turns, those aside in which `select`
  reports nothing. -/
  ends : ∀ trace t, (machine fd n).Run s trace t →
    Machine.Meets (fun u turn => Allowed fd u turn ∧ turn.takes = []) trace →
      trace.countP (fun e => !e.2.idle) ≤ s.left

/-- **`main` refines the local server**: what it has set up in the process that called
`NbdDevOpen` runs as that does, with every number of threads but none and over every
interleaving of its threads with the nodes. -/
theorem main_refines_local {sys : Nbd.System} {net : Network} {sp : ℤ × ℤ} {t t' : Descriptors}
    {socfd : ℕ → ℤ} (hset : setUp sys net sp t = .runs socfd t') (hparent : sys.fork ≠ some 0)
    (hfew : t.fds.card + 10 ≤ FD_SETSIZE) {n : ℕ} (hn : 0 < n) {trace : List (Program × Turn)}
    (run : (machine (fun i => (socfd i).toNat) n).Run (init (fun i => (socfd i).toNat) n) trace s)
    (hc : Machine.Meets (Allowed fun i => (socfd i).toNat) trace) :
    Runs (fun i => (socfd i).toNat) n s (arrivals trace) := by
  have hnine : ∀ i ≤ NUMOFSOC, ∀ j ≤ NUMOFSOC, (socfd i).toNat = (socfd j).toNat → i = j := by
    intro i hi j hj heq
    apply setUp_nine hset hparent i hi j hj
    rw [← setUp_toNat hset hi, ← setUp_toNat hset hj, heq]
  have hlow : ∀ i ≤ NUMOFSOC, (socfd i).toNat < FD_SETSIZE := by
    intro i hi
    have hlt := setUp_low hset hparent hi
    rw [← setUp_toNat hset hi] at hlt
    omega
  have hserving := run_serving run (serving_init hnine hlow n) hc
  have hallowed : Machine.Meets Process.Allowed
      (Machine.project process (fun _ turn => toProcess turn) trace) :=
    Machine.meets_project fun e he => (hc e he).process
  have hserves := Process.run_serves hn (run_process run) hallowed
  obtain ⟨hsim, -⟩ := Process.run_sim (run_process run) hallowed
  rw [arrivals_process] at hserves hsim
  refine ⟨hserves, fun call hcall => ?_, hserving.begins, ?_, fun rest t run' hrest => ?_⟩
  · obtain ⟨i, hi, heq⟩ := hserving.routed.calls call hcall
    exact ⟨i, Nat.le_of_lt_succ hi, heq⟩
  · rcases hserves.progress with hidle | hmoves
    · exact Or.inl hidle
    · exact Or.inr (hserving.progress hnine hmoves)
  · have hbound := run'.counted (P := fun u => System.Sim u.process.server (arrivals trace)) (m := left)
      (fun turn => !turn.idle) hsim (fun _ _ _ hu ha hs => left_step hu ha.1 ha.2 hs) hrest
    exact Nat.le_trans (Nat.le_add_left _ _) hbound.2

instance (fd : ℕ → ℕ) (s : Program) : (turn : Turn) → Decidable (Truthful fd s turn)
  | .select (.ready fds) => inferInstanceAs (Decidable (∀ i ≤ NUMOFSOC, 1 ≤ i → fd i ∈ fds →
      s.process.server.stream i ≠ []))
  | .select (.error _) | .nbd _ | .iot _ _ | .act _ => isTrue trivial

/-- A node's answer, filled in. -/
def served (s : Program) : Turn → Turn
  | .act (.answer k _ _) => .act (.answer k (s.process.server.reply k).1 (s.process.server.reply k).2)
  | turn => turn

theorem serves_served (s : Program) (turn : Turn) : ∀ a ∈ toProcess (s.served turn),
    ∀ l ∈ s.process.toServer a, System.Serves s.process.server l := by
  intro a ha l hl
  cases turn with
  | select outcome => cases ha
  | nbd message | iot i cuts =>
    obtain rfl := Option.some.inj ha
    obtain rfl := Option.some.inj hl
    trivial
  | act a' =>
    cases a' with
    | answer k header data =>
      obtain rfl := Option.some.inj ha
      obtain rfl := Option.some.inj hl
      exact System.serves_reply _ k
    | dequeue w =>
      obtain rfl := Option.some.inj ha
      cases hl
    | _ =>
      obtain rfl := Option.some.inj ha
      obtain rfl := Option.some.inj hl
      trivial

/-- The node of message `k` answers. -/
def answers (k : ℕ) : Turn := .act (.answer k ⟨0, 0, 0, 0, 0, 0⟩ [])

/-- What two workers do with the two tasks of a request, and the reactor with the replies. -/
def twoTasks : List Turn :=
  [.act (.async 16), .act (.async 32), .act (.dequeue 0), .act (.dequeue 1), .act (.test 0 2048),
    .act (.test 1 2048), .act (.send 0 fun _ => 0), .act (.send 1 fun _ => 0), answers 1, answers 0,
    .act (.test 0 2048), .act (.test 1 2048), .select (.ready {5, 6}), .iot 1 fun _ => 24,
    .iot 2 fun _ => 24]

/-- A WRITE of two blocks and a READ of them, from the NBD socket to the nodes' replies. -/
def writeThenRead : List Turn :=
  [.select (.ready {4}), .nbd ⟨⟨NBD_CMD_WRITE, 2048, 0, fun _ => 7⟩, ⟨0, 0, []⟩⟩] ++ twoTasks ++
    [.select (.ready {4}), .nbd ⟨⟨NBD_CMD_READ, 2048, 0, fun _ => 0⟩, ⟨0, 0, []⟩⟩] ++ twoTasks

theorem main_refines_writeThenRead : ∃ socfd t' trace s, setUp ⟨fun _ => true, true, fun _ _ => true, some 1⟩
      ⟨fun _ => true, fun _ => true⟩ (0, 0) stdio = .runs socfd t' ∧
    (machine (fun i => (socfd i).toNat) 2).Run (init (fun i => (socfd i).toNat) 2) trace s ∧
    (arrivals trace).length = 2 ∧ s.process.server.disp.completed.map Prod.fst = [0, 1] ∧
    Runs (fun i => (socfd i).toNat) 2 s (arrivals trace) := by
  have h : (match setUp ⟨fun _ => true, true, fun _ _ => true, some 1⟩ ⟨fun _ => true, fun _ => true⟩
      (0, 0) stdio with
    | .runs socfd _ => ((machine (fun i => (socfd i).toNat) 2).drive served
        (init (fun i => (socfd i).toNat) 2) writeThenRead).any fun e => decide ((∀ x ∈ e.1,
            Truthful (fun i => (socfd i).toNat) x.1 x.2 ∧ ∀ a ∈ toProcess x.2,
              ∀ l ∈ x.1.process.toServer a, System.TakesRequest x.1.process.server l ∧
                x.1.process.server.disp.created < 2 ^ 32 ∧ System.PeeksWhole x.1.process.server l ∧
                  System.SeesLength x.1.process.server l) ∧
          e.2.process.server.disp.completed.map Prod.fst = [0, 1] ∧ (arrivals e.1).length = 2)
    | .ends _ => false) = true := by decide +kernel
  split at h
  case h_2 => cases h
  case h_1 socfd t' hset =>
    obtain ⟨trace, s, run, hserves, hgood⟩ := Machine.run_of_drive _ _ _ _ _ h
    obtain ⟨hall, hdone, htwo⟩ := of_decide_eq_true hgood
    have hnodes := hserves (fun u turn => ∀ a ∈ toProcess turn, ∀ l ∈ u.process.toServer a,
      System.Serves u.process.server l) serves_served
    have hc : Machine.Meets (Allowed fun i => (socfd i).toNat) trace := fun e he =>
      ⟨(hall e he).1, fun a ha l hl =>
        have hcontract := (hall e he).2 a ha l hl
        ⟨hcontract.1, System.fewActive_of_lt hcontract.2.1, hnodes e he a ha l hl, hcontract.2.2.1,
          hcontract.2.2.2⟩⟩
    exact ⟨socfd, t', trace, s, hset, run, htwo, hdone,
      main_refines_local hset (by decide) (by decide) (by decide) run hc⟩

end Program

/-! ### The child -/

/-- What the descriptors make of the program in the child of `NbdDevOpen`. -/
structure Displaced (opened : ℤ × Descriptors) (socfd : ℕ → ℤ) : Prop where
  taken : Taken opened socfd
  /-- Each node's handler is registered for its own socket, the first one's for the number that
  `NbdRequestsHandle` was registered for before… -/
  nodes : ∀ i ≤ NUMOFSOC, 1 ≤ i →
    (register (fun i => (socfd i).toNat) (NUMOFSOC + 1)).handlers (socfd i) = some (some (.iotHandle i))
  /-- …which is registered for none. -/
  lost : ∀ fd, (register (fun i => (socfd i).toNat) (NUMOFSOC + 1)).handlers fd ≠
    some (some .nbdRequestsHandle)
  /-- The program takes no request. -/
  unserved : ∀ (n : ℕ) trace s, (Program.machine (fun i => (socfd i).toNat) n).Run
    (Program.init (fun i => (socfd i).toNat) n) trace s → Program.arrivals trace = []

/-- What is not registered when the reactor starts is never called. -/
theorem Program.unserved {fd : ℕ → ℕ} {n : ℕ}
    (hlost : ∀ x, (register fd (NUMOFSOC + 1)).handlers x ≠ some (some .nbdRequestsHandle))
    {trace : List (Program × Turn)} {s : Program} (run : (machine fd n).Run (init fd n) trace s) :
    (∀ x, s.reactor.handlers x ≠ some (some .nbdRequestsHandle)) ∧ arrivals trace = [] := by
  induction run with
  | nil => exact ⟨hlost, rfl⟩
  | @snoc t u trace turn _ hu ih =>
    obtain ⟨hnone, harrivals⟩ := ih
    obtain ⟨hpermits, hreactor, -⟩ := step_cases hu
    constructor
    · intro x hx
      cases hturn : toReactor turn with
      | none =>
        rw [hturn] at hreactor
        exact hnone x (Option.some.inj hreactor ▸ hx)
      | some l =>
        rw [hturn] at hreactor
        refine hnone x (step_handlers (fun fd func heq => ?_) hreactor hx)
        subst heq
        cases turn <;> cases hturn
    · have htakes : turn.takes = [] := by
        cases turn with
        | nbd message =>
          have hnext : t.next = some .nbdRequestsHandle := of_decide_eq_true hpermits
          exact absurd (Option.join_eq_some_iff.mp hnext) (hnone _)
        | act a =>
          cases a with
          | nbd message => cases hpermits
          | _ => rfl
        | _ => rfl
      simp only [arrivals, List.map_append, List.map_singleton, List.flatMap_append,
        List.flatMap_singleton, htakes, List.append_nil]
      exact harrivals

/-- **The descriptors are nine in the process that called `NbdDevOpen`, and only there**. The
child that goes on with `main` gives the first node the number of the NBD socket, which is
closed; so the node's handler takes the place of `NbdRequestsHandle`, and no request is ever
taken. -/
theorem setUp_distinct_iff (sys : Nbd.System) (net : Network) (sp : ℤ × ℤ) (t : Descriptors)
    (socfd : ℕ → ℤ) (t' : Descriptors) (h : setUp sys net sp t = .runs socfd t') :
    (Nine socfd ↔ sys.fork ≠ some 0) ∧
      (sys.fork = some 0 → Displaced (nbdDevOpen sys "/dev/nbd2" 0x10000000 sp t) socfd) := by
  refine ⟨⟨fun hnine hchild => ?_, setUp_nine h⟩, fun hchild => ?_⟩
  · have htaken := setUp_child h hchild
    have hone := hnine 1 (by decide) 0 (by decide) (htaken.first.trans htaken.nbd.symm)
    omega
  · have htaken := setUp_child h hchild
    have hlost : ∀ fd, (register (fun i => (socfd i).toNat) (NUMOFSOC + 1)).handlers fd ≠
        some (some .nbdRequestsHandle) := by
      intro fd hfd
      obtain ⟨i, hi, hfunc, hlast⟩ := register_handlers hfd
      cases i with
      | zero =>
        refine hlast 1 (by decide) Nat.one_pos ?_
        rw [htaken.first, htaken.nbd]
      | succ i => cases hfunc
    refine ⟨htaken, fun i hi hone => ?_, hlost, fun n trace s run => (Program.unserved hlost run).2⟩
    have hlast : ∀ j < NUMOFSOC + 1, i < j → (socfd j).toNat ≠ (socfd i).toNat := by
      intro j hj hlt heq
      have hj : j ≤ NUMOFSOC := Nat.le_of_lt_succ hj
      have hsame : socfd j = socfd i := by rw [← setUp_toNat h hj, ← setUp_toNat h hi, heq]
      have hij := htaken.nodes j hj i hi (by omega) hone hsame
      omega
    have hhandler := register_last (Nat.lt_succ_of_le hi) hlast
    rw [setUp_toNat h hi] at hhandler
    obtain ⟨k, rfl⟩ := Nat.exists_eq_add_of_le' hone
    exact hhandler

/-- The child of a device that was disconnected. -/
theorem setUp_distinct_child : ∃ socfd t', setUp ⟨fun _ => true, true, fun _ _ => true, some 0⟩
      ⟨fun _ => true, fun _ => true⟩ (0, 0) stdio = .runs socfd t' ∧ ¬Nine socfd ∧
    Displaced (nbdDevOpen ⟨fun _ => true, true, fun _ _ => true, some 0⟩ "/dev/nbd2" 0x10000000 (0, 0)
      stdio) socfd := by
  have hruns : (match setUp ⟨fun _ => true, true, fun _ _ => true, some 0⟩
    ⟨fun _ => true, fun _ => true⟩ (0, 0) stdio with
    | .runs _ _ => true
    | .ends _ => false) = true := by decide +kernel
  split at hruns
  case h_1 socfd t' h =>
    obtain ⟨hnine, hchild⟩ := setUp_distinct_iff _ _ _ _ _ _ h
    exact ⟨socfd, t', h, fun hcon => hnine.mp hcon rfl, hchild rfl⟩
  case h_2 => cases hruns

end PrivateCloud.Dispatch.Main
