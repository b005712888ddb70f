import PrivateCloud.Dispatch.System

/-! The factory that the workers share: `factory.hpp`.

`m_creators[key]` inserts a null creator for a key it does not have, and `Create` calls
what it finds. The key is the type of a request, as it came off the NBD socket; nobody
looks at it before a worker does. The system is run here with that map in its state
and with the calls that were made: `only_registered` says which requests keep them to
the keys `RequestDispatcher`'s constructor has added, `unregistered_crashes` where any
other one leads. -/
namespace PrivateCloud.Dispatch
open Nbd Host

/-- `m_creators`: a key is absent, or has a creator, or has the null one. -/
abbrev CreatorMap := UInt32 → Option (Option Command)

namespace CreatorMap

def empty : CreatorMap := fun _ => none

/-- `m_creators[key]` -/
def subscript (m : CreatorMap) (key : UInt32) : Option Command × CreatorMap :=
  match m key with
  | some creator => (creator, m)
  | none => (none, Function.update m key (some none))

def add (key : UInt32) (command : Command) (m : CreatorMap) : CreatorMap :=
  Function.update m key (some (some command))

/-- `Create`: the command made, `none` for a call of the null creator; and the map after
it. -/
def create (m : CreatorMap) (key : UInt32) : Option Command × CreatorMap := m.subscript key

/-- As `RequestDispatcher`'s constructor leaves it. -/
def constructed : CreatorMap :=
  (empty.add NBD_CMD_WRITE .writeRequest).add NBD_CMD_READ .readRequest

theorem constructed_create {key : UInt32} (h : Registered key) :
    ∃ command, constructed.create key = (some command, constructed) := by
  rcases h with rfl | rfl
  · exact ⟨.readRequest, rfl⟩
  · exact ⟨.writeRequest, rfl⟩

/-- A key that was not added is inserted. -/
theorem constructed_insert {key : UInt32} (h : ¬Registered key) :
    constructed.create key = (none, Function.update constructed key (some none)) := by
  have habsent : constructed key = none := by
    simp only [Registered, not_or] at h
    simp only [constructed, add, empty, Function.update_of_ne h.1, Function.update_of_ne h.2]
  simp only [create, subscript, habsent]

/-- As long as the map is that, `Create` makes what the factory without one makes. -/
theorem constructed_command (key : UInt32) : (constructed.create key).1 = creators.create key := by
  by_cases hkey : Registered key
  · rcases hkey with rfl | rfl
    · rfl
    · rfl
  · rw [constructed_insert hkey, create_eq_none hkey]

end CreatorMap

/-- The system with the map, and the keys `Create` was called with, latest first. A call
of the null creator ends the process. -/
structure Factored where
  system : System
  creators : CreatorMap
  calls : List UInt32
  crashed : Bool

namespace Factored

def init : Factored := ⟨System.init, CreatorMap.constructed, [], false⟩

/-- The loop body of task `k`, with what `Create` finds in the map. -/
def send (s : Factored) (k : ℕ) (junk : Memory) : Option Factored :=
  match s.system.tasks[k]? with
  | some ⟨owner, info, i, .body⟩ =>
    let key := info.atlasHeader.type
    match s.creators.create key with
    | (none, creators) => some {s with creators := creators, calls := key :: s.calls, crashed := true}
    | (some command, creators) =>
      some { s with
        system := { s.system with
          tasks := s.system.tasks.set k ⟨owner, info.advance, i + numOfIot, .test⟩
          wire := ⟨owner, info.sockfd, info.atlasHeader,
            command.sendRequest (s.system.dataBufAt owner junk) info⟩ :: s.system.wire }
        creators := creators
        calls := key :: s.calls }
  | _ => none

def step (s : Factored) (l : Label) : Option Factored :=
  if s.crashed then none
  else match l with
    | .send k junk => s.send k junk
    | l => (s.system.step l).map fun system => {s with system := system}

def machine : Machine Factored Label := ⟨init, step⟩

/-- A request that is taken is a READ or a WRITE, or too short for a fragment. -/
def TakesRegistered (_ : Factored) : Label → Prop
  | .nbd message => Registered message.nbdReq.reqType ∨ message.nbdReq.dataLen.toNat < 1024
  | _ => True

instance (s : Factored) : (l : Label) → Decidable (TakesRegistered s l)
  | .nbd message =>
    inferInstanceAs (Decidable (Registered message.nbdReq.reqType ∨ message.nbdReq.dataLen.toNat < 1024))
  | .async | .test _ _ | .send _ _ | .answer _ _ _ | .iot _ _ => isTrue trivial

/-! ### What one step can do -/

variable {s s' : Factored}

theorem step_cases {l : Label} (h : s.step l = some s') : s.crashed = false ∧
    ((∃ k junk, l = .send k junk ∧ s.send k junk = some s') ∨
      ((∀ k junk, l ≠ .send k junk) ∧ ∃ system, s.system.step l = some system ∧
        s' = {s with system := system})) := by
  unfold step at h
  split at h
  case isTrue => cases h
  case isFalse halive =>
    refine ⟨by simpa using halive, ?_⟩
    cases l with
    | send k junk => exact Or.inl ⟨k, junk, rfl, h⟩
    | nbd _ | async | test _ _ | answer _ _ _ | iot _ _ =>
      obtain ⟨system, hsystem, rfl⟩ := Option.map_eq_some_iff.mp h
      exact Or.inr ⟨nofun, system, hsystem, rfl⟩

theorem send_cases {k : ℕ} {junk : Memory} (h : s.send k junk = some s') :
    ∃ task, s.system.tasks[k]? = some task ∧ task.pc = .body ∧
      ((∃ creators, s.creators.create task.info.atlasHeader.type = (none, creators) ∧
          s' = { s with
            creators := creators
            calls := task.info.atlasHeader.type :: s.calls
            crashed := true }) ∨
        ∃ command creators, s.creators.create task.info.atlasHeader.type = (some command, creators) ∧
          s' = { s with
            system := { s.system with
              tasks := s.system.tasks.set k ⟨task.owner, task.info.advance, task.i + numOfIot, .test⟩
              wire := ⟨task.owner, task.info.sockfd, task.info.atlasHeader,
                command.sendRequest (s.system.dataBufAt task.owner junk) task.info⟩ :: s.system.wire }
            creators := creators
            calls := task.info.atlasHeader.type :: s.calls }) := by
  simp only [send] at h
  split at h
  case h_1 owner info i htask =>
    refine ⟨⟨owner, info, i, .body⟩, htask, rfl, ?_⟩
    split at h
    case h_1 creators hcreate => exact Or.inl ⟨creators, hcreate, (Option.some.inj h).symm⟩
    case h_2 command creators hcreate => exact Or.inr ⟨command, creators, hcreate, (Option.some.inj h).symm⟩
  case h_2 => cases h

/-! ### Without the map

`System` has no map in it, and stops where `Create` would call the null creator. -/

/-- A step that does not end the process is a step of the system, and leaves the map as it is. -/
theorem step_system (hcreators : s.creators = CreatorMap.constructed) {l : Label} (h : s.step l = some s')
    (halive : s'.crashed = false) :
    s.system.step l = some s'.system ∧ s'.creators = CreatorMap.constructed := by
  obtain ⟨-, ⟨k, junk, rfl, hsend⟩ | ⟨-, system, hsystem, rfl⟩⟩ := step_cases h
  · obtain ⟨⟨owner, info, i, pc⟩, htask, hpc, hcase⟩ := send_cases hsend
    obtain rfl : pc = .body := hpc
    have hcommand := CreatorMap.constructed_command info.atlasHeader.type
    rcases hcase with ⟨creators, -, rfl⟩ | ⟨command, creators, hcreate, rfl⟩
    · cases halive
    · rw [hcreators] at hcreate
      rw [hcreate] at hcommand
      obtain ⟨command', hconstructed⟩ :=
        CreatorMap.constructed_create ((registered_iff _).mpr ⟨_, hcommand.symm⟩)
      rw [hcreate] at hconstructed
      refine ⟨?_, (Prod.mk.inj hconstructed).2⟩
      simp only [System.step, System.send, htask, ← hcommand]
  · exact ⟨hsystem, hcreators⟩

/-- And every step of the system is such a step. -/
theorem system_step (hcreators : s.creators = CreatorMap.constructed) (halive : s.crashed = false) {l : Label}
    {t : System} (h : s.system.step l = some t) :
    ∃ s', s.step l = some s' ∧ s'.crashed = false ∧ s'.system = t := by
  cases l with
  | send k junk =>
    obtain ⟨⟨owner, info, i, pc⟩, command, htask, hpc, hcommand, rfl⟩ := System.send_cases h
    obtain rfl : pc = .body := hpc
    obtain ⟨command', hcreate⟩ := CreatorMap.constructed_create ((registered_iff _).mpr ⟨_, hcommand⟩)
    have hsame := CreatorMap.constructed_command info.atlasHeader.type
    rw [hcreate, hcommand] at hsame
    obtain rfl := Option.some.inj hsame
    refine ⟨{ s with
      system := _
      creators := CreatorMap.constructed
      calls := info.atlasHeader.type :: s.calls }, ?_, halive, rfl⟩
    simp only [step, halive, send, htask, hcreators, hcreate]
    rfl
  | nbd _ | async | test _ _ | answer _ _ _ | iot _ _ =>
    refine ⟨{s with system := t}, ?_, halive, rfl⟩
    simp [step, halive, h]

/-- **The system is what this machine does before it crashes**: its runs are the runs here that
called no null creator. -/
theorem run_system {trace : List (System × Label)} {t : System} : System.machine.Run System.init trace t ↔
    ∃ trace' s, machine.Run init trace' s ∧ s.crashed = false ∧ s.system = t ∧
      trace'.map (fun e => (e.1.system, e.2)) = trace := by
  -- The map is the constructor's for as long as the process lives.
  have hproject {trace' : List (Factored × Label)} {s : Factored} (run : machine.Run init trace' s)
      (halive : s.crashed = false) : s.creators = CreatorMap.constructed ∧
        System.machine.Run System.init (trace'.map fun e => (e.1.system, e.2)) s.system := by
    induction run with
    | nil => exact ⟨rfl, Machine.Run.nil⟩
    | snoc _ hs ih =>
      obtain ⟨hcreators, run⟩ := ih (step_cases hs).1
      obtain ⟨hsystem, hcreators'⟩ := step_system hcreators hs halive
      rw [List.map_append]
      exact ⟨hcreators', run.snoc hsystem⟩
  constructor
  · intro run
    induction run with
    | nil => exact ⟨[], init, Machine.Run.nil, rfl, rfl, rfl⟩
    | snoc _ hu ih =>
      obtain ⟨trace', s, run', halive, rfl, rfl⟩ := ih
      obtain ⟨s', hs', halive', rfl⟩ := system_step (hproject run' halive).1 halive hu
      exact ⟨_, s', run'.snoc hs', halive', rfl, by rw [List.map_append]; rfl⟩
  · rintro ⟨trace', s, run, halive, rfl, rfl⟩
    exact (hproject run halive).2

/-! ### Registered requests -/

/-- A request has tasks of its own type, and none at all if it is too short. -/
theorem tasksOf_registered {reqUid : UInt32} {message : NbdMessage} {owner : ℕ}
    (h : Registered message.nbdReq.reqType ∨ message.nbdReq.dataLen.toNat < 1024) :
    ∀ task ∈ System.tasksOf (RequestHost.create reqUid message) owner,
      Registered task.info.atlasHeader.type := by
  intro task htask
  obtain ⟨info, hinfo, rfl⟩ := List.mem_map.mp htask
  rcases h with htype | hshort
  · rw [(RequestHost.ofRequest_distribute hinfo).1]
    exact htype
  · have hcount : (RequestHost.create reqUid message).count = 0 := by
      rw [RequestHost.count_eq]
      exact Nat.div_eq_of_lt hshort
    rw [RequestHost.distribute_eq, hcount] at hinfo
    cases hinfo

/-- The first task of a request that has one. -/
theorem tasksOf_first {message : NbdMessage} (reqUid : UInt32) (owner : ℕ)
    (hlong : 1024 ≤ message.nbdReq.dataLen.toNat) :
    ∃ info rest,
      System.tasksOf (RequestHost.create reqUid message) owner = ⟨owner, info, 0, .test⟩ :: rest ∧
      info.atlasHeader.type = message.nbdReq.reqType := by
  obtain ⟨n, hn⟩ : ∃ n, min (RequestHost.create reqUid message).count 8 = n + 1 := by
    rw [RequestHost.count_eq]
    have hlen : (RequestHost.create reqUid message).dataLen.toNat / 1024 ≥ 1 :=
      Nat.div_pos hlong (by decide)
    exact ⟨min ((RequestHost.create reqUid message).dataLen.toNat / 1024) 8 - 1, by omega⟩
  refine ⟨(RequestHost.create reqUid message).infoAt 0,
    (((List.range n).map Nat.succ).map (RequestHost.create reqUid message).infoAt).map
      fun info => ⟨owner, info, info.atlasHeader.fragmentUid, .test⟩, ?_, ?_⟩
  · have hzero : ((RequestHost.create reqUid message).infoAt 0).atlasHeader.fragmentUid = 0 := by
      rw [RequestHost.infoAt_eq]
      rfl
    rw [System.tasksOf, RequestHost.distribute_eq, hn, List.range_succ_eq_map, List.map_cons, List.map_cons,
      hzero]
  · rw [RequestHost.infoAt_eq]
    rfl

/-- Every step but a task's own leaves the tasks the type they have. -/
theorem system_registered {t t' : System} {l : Label} (hl : ∀ s, TakesRegistered s l)
    (hsend : ∀ k junk, l ≠ .send k junk) (h : t.step l = some t')
    (hq : ∀ task ∈ t.queueing, Registered task.info.atlasHeader.type)
    (ht : ∀ task ∈ t.tasks, Registered task.info.atlasHeader.type) :
    (∀ task ∈ t'.queueing, Registered task.info.atlasHeader.type) ∧
      ∀ task ∈ t'.tasks, Registered task.info.atlasHeader.type := by
  cases l with
  | nbd message =>
    obtain ⟨-, rfl⟩ := System.nbd_cases h
    exact ⟨tasksOf_registered (hl init), ht⟩
  | async =>
    obtain ⟨task, rest, hqueue, rfl⟩ := System.async_cases h
    rw [hqueue] at hq
    obtain ⟨hfirst, hrest⟩ := List.forall_mem_cons.mp hq
    exact ⟨hrest, List.forall_mem_cons.mpr ⟨hfirst, ht⟩⟩
  | test k seen =>
    obtain ⟨task, htask, -, hcase⟩ := System.test_cases h
    have hkey := ht task (List.mem_of_getElem? htask)
    rcases hcase with ⟨-, rfl⟩ | ⟨-, rfl⟩
    · refine ⟨hq, fun other hother => ?_⟩
      rcases Bag.mem_set hother with rfl | hother
      · exact hkey
      · exact ht other hother
    · exact ⟨hq, fun other hother => ht other (List.mem_of_mem_eraseIdx hother)⟩
  | send k junk => exact absurd rfl (hsend k junk)
  | answer k header data =>
    obtain ⟨m, -, rfl⟩ := System.answer_cases h
    exact ⟨hq, ht⟩
  | iot sockfd cuts =>
    obtain ⟨-, -, disp, socket, -, rfl⟩ := System.iot_cases h
    exact ⟨hq, ht⟩

/-- Every call so far was one the constructor has provided for, and so will every call
be that a task of now makes. -/
structure Inv (s : Factored) : Prop where
  queueing : ∀ task ∈ s.system.queueing, Registered task.info.atlasHeader.type
  tasks : ∀ task ∈ s.system.tasks, Registered task.info.atlasHeader.type
  calls : ∀ key ∈ s.calls, Registered key
  creators : s.creators = CreatorMap.constructed
  crashed : s.crashed = false

theorem inv_init : Inv init where
  queueing := nofun
  tasks := nofun
  calls := nofun
  creators := rfl
  crashed := rfl

theorem inv_send {k : ℕ} {junk : Memory} (hinv : Inv s) (h : s.send k junk = some s') : Inv s' := by
  obtain ⟨task, htask, -, hcase⟩ := send_cases h
  have hkey := hinv.tasks task (List.mem_of_getElem? htask)
  obtain ⟨command, hcreate⟩ := CreatorMap.constructed_create hkey
  rcases hcase with ⟨creators, hnull, -⟩ | ⟨command', creators, hmade, rfl⟩
  · rw [hinv.creators, hcreate] at hnull
    cases hnull
  · rw [hinv.creators, hcreate] at hmade
    obtain ⟨-, rfl⟩ := Prod.mk.inj hmade
    refine ⟨hinv.queueing, fun other hother => ?_, List.forall_mem_cons.mpr ⟨hkey, hinv.calls⟩, rfl,
      hinv.crashed⟩
    rcases Bag.mem_set hother with rfl | hother
    · exact hkey
    · exact hinv.tasks other hother

theorem inv_step {l : Label} (hinv : Inv s) (hl : TakesRegistered s l) (h : s.step l = some s') :
    Inv s' := by
  obtain ⟨-, ⟨k, junk, rfl, hsend⟩ | ⟨hsend, system, hsystem, rfl⟩⟩ := step_cases h
  · exact inv_send hinv hsend
  · have hrule : ∀ s, TakesRegistered s l := by
      intro s
      cases l with
      | nbd message => exact hl
      | _ => trivial
    obtain ⟨hq, ht⟩ := system_registered hrule hsend hsystem hinv.queueing hinv.tasks
    exact ⟨hq, ht, hinv.calls, hinv.creators, hinv.crashed⟩

/-- **Registered commands.** Where every request taken is a READ or a WRITE, or too
short to be sent, `Create` is called with the keys of these two only: it never calls the
null creator and never changes the map. -/
theorem only_registered {trace : List (Factored × Label)} {s : Factored} (run : machine.Run init trace s)
    (h : Machine.Meets TakesRegistered trace) :
    (∀ key ∈ s.calls, Registered key) ∧ s.creators = CreatorMap.constructed ∧ s.crashed = false := by
  have hinv := run.invariant (P := Inv) (r := TakesRegistered) inv_init
    (fun _ _ _ hinv hl hs => inv_step hinv hl hs) h
  exact ⟨hinv.calls, hinv.creators, hinv.crashed⟩

/-- A WRITE, a trim too short to be sent, and a READ of two fragments. -/
theorem only_registered_both : ∃ trace s, machine.Run init trace s ∧
    s.calls = [NBD_CMD_READ, NBD_CMD_READ, NBD_CMD_WRITE] ∧
    ((∀ key ∈ s.calls, Registered key) ∧ s.creators = CreatorMap.constructed ∧ s.crashed = false) := by
  obtain ⟨trace, s, run, hgood⟩ := machine.run_of_replay init
    [.nbd ⟨⟨NBD_CMD_WRITE, 1024, 0, fun _ => 0⟩, ⟨0, 0, []⟩⟩, .async, .test 0 0, .send 0 fun _ => 0,
      .nbd ⟨⟨4, 512, 0, fun _ => 0⟩, ⟨0, 0, []⟩⟩, .nbd ⟨⟨NBD_CMD_READ, 2048, 0, fun _ => 0⟩, ⟨0, 0, []⟩⟩,
      .async, .async, .test 0 0, .send 0 fun _ => 0, .test 1 0, .send 1 fun _ => 0]
    (fun r => decide (Machine.Meets TakesRegistered r.1) &&
      r.2.calls == [NBD_CMD_READ, NBD_CMD_READ, NBD_CMD_WRITE]) (by decide +kernel)
  simp only [Bool.and_eq_true, decide_eq_true_eq, beq_iff_eq] at hgood
  exact ⟨trace, s, run, hgood.2, only_registered run hgood.1⟩

/-- A trim of one fragment. -/
theorem trim_crashes : ∃ trace s, machine.Run init trace s ∧ s.crashed = true ∧ s.calls = [4] ∧
    ¬Registered 4 ∧ s.creators 4 = some none := by
  obtain ⟨trace, s, run, hgood⟩ := machine.run_of_replay init
    [.nbd ⟨⟨4, 1024, 0, fun _ => 0⟩, ⟨0, 0, []⟩⟩, .async, .test 0 0, .send 0 fun _ => 0]
    (fun r => r.2.crashed && r.2.calls == [4] && decide (r.2.creators 4 = some none)) (by decide +kernel)
  simp only [Bool.and_eq_true, decide_eq_true_eq, beq_iff_eq] at hgood
  exact ⟨trace, s, run, hgood.1.1, hgood.1.2, by decide, hgood.2⟩

/-- Any other request can crash the process as soon as its first task runs: the map then
has a null creator for its type. -/
theorem unregistered_crashes {message : NbdMessage} (hcreators : s.creators = CreatorMap.constructed)
    (h : s.step (.nbd message) = some s') (hnot : ¬TakesRegistered s (.nbd message)) :
    ∃ trace u, machine.Run s' trace u ∧ u.crashed = true ∧ message.nbdReq.reqType ∈ u.calls ∧
      u.creators = Function.update CreatorMap.constructed message.nbdReq.reqType (some none) := by
  simp only [TakesRegistered, not_or, Nat.not_lt] at hnot
  obtain ⟨htype, hlong⟩ := hnot
  obtain ⟨halive, ⟨k, junk, hl, -⟩ | ⟨-, system, hsystem, rfl⟩⟩ := step_cases h
  · cases hl
  obtain ⟨-, hnext⟩ := System.nbd_cases hsystem
  obtain ⟨info, rest, htasks, hkey⟩ :=
    tasksOf_first s.system.disp.reqUid s.system.disp.created hlong
  -- The reactor hands the first task over, it passes its test, and its body calls `Create`.
  let handed (pc : Pc) : Factored := {s with system := {system with
    queueing := rest
    tasks := ⟨s.system.disp.created, info, 0, pc⟩ :: system.tasks}}
  have hseen : (0 : UInt32) <
      fragments ((handed .test).system.dataLenAt s.system.disp.created 0xffffffff) := by
    unfold System.dataLenAt
    split
    case isTrue => decide
    case isFalse =>
      have hhost : (handed .test).system.host s.system.disp.created =
          RequestHost.create s.system.disp.reqUid message := by
        simp only [handed, hnext]
        exact Function.update_self ..
      have hlen : 0 < (fragments message.nbdReq.dataLen).toNat := by
        rw [RequestHost.toNat_fragments]
        exact Nat.div_pos hlong (by decide)
      rw [hhost]
      exact UInt32.lt_iff_toNat_lt.mpr hlen
  have hasync : machine.step {s with system := system} .async = some (handed .test) := by
    have hqueue : system.queueing = ⟨s.system.disp.created, info, 0, .test⟩ :: rest := by
      rw [hnext]
      exact htasks
    simp [machine, step, halive, System.step, System.async, hqueue, handed]
  have htest : machine.step (handed .test) (.test 0 0xffffffff) = some (handed .body) := by
    simp only [handed] at hseen
    simp [machine, step, halive, System.step, System.test, handed, hseen]
  have hsend : machine.step (handed .body) (.send 0 fun _ => 0) = some {handed .body with
      creators := Function.update CreatorMap.constructed message.nbdReq.reqType (some none)
      calls := message.nbdReq.reqType :: s.calls
      crashed := true} := by
    simp [machine, step, halive, send, handed, hcreators, hkey, CreatorMap.constructed_insert htype]
  exact ⟨_, _, ((Machine.Run.nil.snoc hasync).snoc htest).snoc hsend, rfl, List.mem_cons_self .., rfl⟩

end Factored
end PrivateCloud.Dispatch
