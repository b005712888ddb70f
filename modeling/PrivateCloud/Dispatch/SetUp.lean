import PrivateCloud.Nbd.DevOpen

/-! What `main` of `atlas_iots.cpp` sets up.

`main` opens the device and connects a socket to each of the eight nodes. It does not look at
what `InitSocket` returns; that a socket was not made shows in its `connect`.

The nine descriptors are different in the process that called `NbdDevOpen` (`setUp_nine`). Its
child, which goes on with `main` when the device is disconnected, has closed the NBD socket
and gets its number for the first node's (`setUp_child`). -/
namespace PrivateCloud.Dispatch.Main
open Nbd

def NUMOFSOC : ℕ := 8

/-- What the calls of `socket` and `connect` come back with, node by node. -/
structure Network where
  socket : ℕ → Bool
  connect : ℕ → Bool

/-- How `main` goes on: it ends with a status, or runs the reactor on these descriptors. -/
inductive Outcome where
  | ends (status : ℤ)
  | runs (socfd : ℕ → ℤ) (table : Descriptors)

/-- `InitSocket`: what it leaves in `*sockfd`, and the descriptors that are open then. -/
def initSocket (net : Network) (i : ℕ) (t : Descriptors) : ℤ × Descriptors :=
  if net.socket i then t.take else (-1, t)

/-- The loop that connects the nodes: nothing where it exits the program. -/
def connectAll (net : Network) : List ℕ → (ℕ → ℤ) → Descriptors → Option ((ℕ → ℤ) × Descriptors)
  | [], socfd, t => some (socfd, t)
  | i :: rest, socfd, t =>
    let (fd, t) := initSocket net i t
    if fd ∈ t ∧ net.connect i then connectAll net rest (Function.update socfd i fd) t else none

/-- `main`, up to the reactor. `sp` is what the stack holds where `NbdDevOpen` puts its
socketpair. -/
def setUp (sys : Nbd.System) (net : Network) (sp : ℤ × ℤ) (t : Descriptors) : Outcome :=
  let (fd, t) := nbdDevOpen sys "/dev/nbd2" 0x10000000 sp t
  if fd = -1 then .ends 1
  else
    match connectAll net (List.range' 1 NUMOFSOC) (Function.update (fun _ => 0) 0 fd) t with
    | none => .ends 0
    | some (socfd, t) => .runs socfd t

/-! ### The descriptors -/

section SetUp
variable {net : Network} {t t' : Descriptors} {socfd socfd' : ℕ → ℤ}

/-- What the loop over these nodes leaves. -/
structure Connected (nodes : List ℕ) (socfd : ℕ → ℤ) (t : Descriptors) (socfd' : ℕ → ℤ)
    (t' : Descriptors) : Prop where
  others : ∀ i ∉ nodes, socfd' i = socfd i
  first : ∀ i ∈ nodes.head?, socfd' i = t.take.1
  mem : ∀ i ∈ nodes, socfd' i ∈ t'
  fresh : ∀ i ∈ nodes, socfd' i ∉ t
  distinct : ∀ i ∈ nodes, ∀ j ∈ nodes, socfd' i = socfd' j → i = j
  kept : ∀ fd ∈ t, fd ∈ t'
  low : ∀ i ∈ nodes, socfd' i < t.fds.card + nodes.length
  card : t'.fds.card = t.fds.card + nodes.length

/-- A descriptor that `connect` takes is one that `socket` has made. -/
theorem initSocket_cases {i : ℕ} (h : (initSocket net i t).1 ∈ (initSocket net i t).2) :
    initSocket net i t = t.take := by
  unfold initSocket at h ⊢
  split
  · rfl
  · rename_i hfail
    rw [if_neg hfail] at h
    have hneg := t.nonneg _ h
    omega

theorem connectAll_connected {nodes : List ℕ} (hnodup : nodes.Nodup)
    (h : connectAll net nodes socfd t = some (socfd', t')) : Connected nodes socfd t socfd' t' := by
  induction nodes generalizing socfd t with
  | nil =>
    obtain ⟨rfl, rfl⟩ := Prod.mk.inj (Option.some.inj h)
    exact ⟨fun _ _ => rfl, nofun, nofun, nofun, nofun, fun _ hfd => hfd, nofun, rfl⟩
  | cons i rest ih =>
    obtain ⟨hi, hnodup⟩ := List.nodup_cons.mp hnodup
    simp only [connectAll] at h
    split at h
    case isFalse => cases h
    case isTrue hready =>
      have htake := initSocket_cases hready.1
      rw [htake] at h
      have hrest := ih hnodup h
      have hfd : socfd' i = t.take.1 := by
        rw [hrest.others i hi, Function.update_self]
      have hcard := t.card_take
      refine ⟨?_, ?_, ?_, ?_, ?_, ?_, ?_, ?_⟩
      · intro j hj
        obtain ⟨hne, hj⟩ := not_or.mp (fun hcon => hj (List.mem_cons.mpr hcon))
        rw [hrest.others j hj, Function.update_of_ne hne]
      · intro j hj
        obtain rfl := Option.some.inj hj
        exact hfd
      · intro j hj
        rcases List.mem_cons.mp hj with rfl | hj
        · rw [hfd]
          exact hrest.kept _ (Descriptors.mem_take.mpr (Or.inl rfl))
        · exact hrest.mem j hj
      · intro j hj
        rcases List.mem_cons.mp hj with rfl | hj
        · rw [hfd]
          exact t.take_notMem
        · exact fun hcon => hrest.fresh j hj (Descriptors.mem_take.mpr (Or.inr hcon))
      · -- The socket made first is open when the others are made.
        have hfirst : ∀ j ∈ rest, socfd' j ≠ t.take.1 := fun j hj hcon =>
          hrest.fresh j hj (Descriptors.mem_take.mpr (Or.inl hcon))
        intro j hj k hk heq
        rcases List.mem_cons.mp hj with rfl | hjrest
        · rcases List.mem_cons.mp hk with rfl | hkrest
          · rfl
          · exact absurd (heq.symm.trans hfd) (hfirst k hkrest)
        · rcases List.mem_cons.mp hk with rfl | hkrest
          · exact absurd (heq.trans hfd) (hfirst j hjrest)
          · exact hrest.distinct j hjrest k hkrest heq
      · exact fun fd hold => hrest.kept fd (Descriptors.mem_take.mpr (Or.inr hold))
      · intro j hj
        rw [List.length_cons]
        rcases List.mem_cons.mp hj with rfl | hj
        · have hlow := t.take_le_card
          rw [hfd]
          omega
        · have hlow := hrest.low j hj
          omega
      · rw [hrest.card, hcard, List.length_cons]
        omega

variable {sys : Nbd.System} {sp : ℤ × ℤ}

theorem nbdDevOpen_forked {devName : String} {size : UInt64}
    (h : (nbdDevOpen sys devName size sp t).1 ≠ -1) :
    ∃ pid, sys.fork = some pid ∧ nbdDevOpen sys devName size sp t =
      forked sys pid (t.take.2.take.1, t.take.2.take.2.take.1) t.take.1 t.take.2.take.2.take.2 := by
  have hfail {x : ℤ × ℤ} {nbd : ℤ} {u : Descriptors} : ¬(fail x nbd u).1 ≠ -1 := not_not_intro rfl
  simp only [nbdDevOpen] at h ⊢
  by_cases hopens : sys.opens devName
  case neg =>
    rw [if_neg hopens] at h
    exact absurd h hfail
  by_cases hpair : sys.socketpair
  case neg =>
    rw [if_pos hopens, if_neg hpair] at h
    exact absurd h hfail
  rw [if_pos hopens, if_pos hpair] at h ⊢
  by_cases hprep : sys.prepares t.take.1 size (t.take.2.take.1, t.take.2.take.2.take.1)
  case neg =>
    rw [if_neg hprep] at h
    exact absurd h hfail
  rw [if_pos hprep] at h ⊢
  cases hfork : sys.fork with
  | none =>
    rw [hfork] at h
    exact absurd h hfail
  | some pid => exact ⟨pid, rfl, rfl⟩

theorem forked_child {pair : ℤ × ℤ} {nbd : ℤ} {u : Descriptors} (h : (forked sys 0 pair nbd u).1 ≠ -1) :
    forked sys 0 pair nbd u = (pair.1, ((u.close pair.1).2.close pair.2).2) := by
  simp only [forked, if_true] at h ⊢
  by_cases hdoIt : sys.ioctl nbd .doIt
  · rw [if_pos hdoIt]
  · rw [if_neg hdoIt] at h
    exact absurd rfl h

/-- In the child both ends of the socketpair are closed: only the device is left. -/
theorem child_table (t : Descriptors) : ((t.take.2.take.2.take.2.close t.take.2.take.1).2.close
    t.take.2.take.2.take.1).2 = t.take.2 := by
  refine Descriptors.eq_of_mem fun fd => ?_
  have h0 := t.take.2.take_notMem
  have h1 : t.take.2.take.2.take.1 ∉ t.take.2 := fun hcon =>
    t.take.2.take.2.take_notMem (Descriptors.mem_take.mpr (Or.inr hcon))
  rw [Descriptors.mem_close, Descriptors.mem_close, Descriptors.mem_take, Descriptors.mem_take]
  constructor
  · intro hcase
    obtain ⟨hfd1, hfd0, rfl | rfl | hmem⟩ := hcase
    · exact absurd rfl hfd1
    · exact absurd rfl hfd0
    · exact hmem
  · intro hmem
    exact ⟨fun heq => h1 (heq ▸ hmem), fun heq => h0 (heq ▸ hmem), Or.inr (Or.inr hmem)⟩

/-- In the caller the NBD socket is open, and the device. -/
theorem parent_table (t : Descriptors) :
    (t.take.2.take.2.take.2.close t.take.2.take.2.take.1).2 = t.take.2.take.2 := by
  rw [Descriptors.close_of_mem (Descriptors.mem_take.mpr (Or.inl rfl)), Descriptors.erase_take]

/-- Where the device opens, the NBD socket is the number taken after the device's; the child
has closed it. -/
theorem nbdDevOpen_opened {devName : String} {size : UInt64}
    (h : (nbdDevOpen sys devName size sp t).1 ≠ -1) :
    (nbdDevOpen sys devName size sp t).1 = t.take.2.take.1 ∧
      (nbdDevOpen sys devName size sp t).2 = if sys.fork = some 0 then t.take.2 else t.take.2.take.2 := by
  obtain ⟨pid, hfork, heq⟩ := nbdDevOpen_forked h
  rw [heq] at h ⊢
  by_cases hchild : pid = 0
  · subst hchild
    rw [forked_child h, if_pos hfork]
    exact ⟨rfl, child_table t⟩
  · rw [forked, if_neg hchild, if_neg fun hcon => hchild (Option.some.inj (hfork.symm.trans hcon))]
    exact ⟨rfl, parent_table t⟩

/-- What `main` has opened when it comes to the reactor. -/
theorem setUp_runs (h : setUp sys net sp t = .runs socfd' t') :
    nbdDevOpen sys "/dev/nbd2" 0x10000000 sp t =
        (t.take.2.take.1, if sys.fork = some 0 then t.take.2 else t.take.2.take.2) ∧
      socfd' 0 = t.take.2.take.1 ∧
      Connected (List.range' 1 NUMOFSOC) (Function.update (fun _ => 0) 0 (socfd' 0))
        (if sys.fork = some 0 then t.take.2 else t.take.2.take.2) socfd' t' := by
  simp only [setUp] at h
  split at h
  case isTrue => cases h
  case isFalse hopened =>
    split at h
    case h_1 => cases h
    case h_2 hconnect =>
      obtain ⟨rfl, rfl⟩ := Outcome.runs.inj h
      obtain ⟨hfd, htable⟩ := nbdDevOpen_opened hopened
      rw [hfd, htable] at hconnect
      have hconnected := connectAll_connected List.nodup_range' hconnect
      have hnbd := hconnected.others 0 (by decide)
      rw [Function.update_self] at hnbd
      exact ⟨Prod.ext hfd htable, hnbd, hnbd ▸ hconnected⟩

/-- Descriptors that are nine. -/
def Nine (socfd : ℕ → ℤ) : Prop := ∀ i ≤ NUMOFSOC, ∀ j ≤ NUMOFSOC, socfd i = socfd j → i = j

theorem mem_nodes {i : ℕ} (h : i ≤ NUMOFSOC) : i = 0 ∨ i ∈ List.range' 1 NUMOFSOC := by
  rw [List.mem_range'_1]
  omega

theorem setUp_nine (h : setUp sys net sp t = .runs socfd' t') (hparent : sys.fork ≠ some 0) :
    Nine socfd' := by
  obtain ⟨-, hnbd, hconnected⟩ := setUp_runs h
  rw [if_neg hparent] at hconnected
  -- The NBD socket was open when the nodes' sockets were made.
  have hopen : socfd' 0 ∈ t.take.2.take.2 := hnbd ▸ Descriptors.mem_take.mpr (Or.inl rfl)
  intro i hi j hj heq
  rcases mem_nodes hi with rfl | hi
  · rcases mem_nodes hj with rfl | hj
    · rfl
    · exact absurd (heq ▸ hopen) (hconnected.fresh j hj)
  · rcases mem_nodes hj with rfl | hj
    · exact absurd (heq ▸ hopen) (hconnected.fresh i hi)
    · exact hconnected.distinct i hi j hj heq

/-- What the child of `NbdDevOpen` has got: what this returned is not open, and the first
node's socket has its number. -/
structure Taken (opened : ℤ × Descriptors) (socfd : ℕ → ℤ) : Prop where
  closed : opened.1 ∉ opened.2
  nbd : socfd 0 = opened.1
  first : socfd 1 = opened.1
  nodes : ∀ i ≤ NUMOFSOC, ∀ j ≤ NUMOFSOC, 1 ≤ i → 1 ≤ j → socfd i = socfd j → i = j

theorem setUp_child (h : setUp sys net sp t = .runs socfd' t') (hchild : sys.fork = some 0) :
    Taken (nbdDevOpen sys "/dev/nbd2" 0x10000000 sp t) socfd' := by
  obtain ⟨hopened, hnbd, hconnected⟩ := setUp_runs h
  rw [if_pos hchild] at hopened hconnected
  rw [hopened]
  refine ⟨t.take.2.take_notMem, hnbd, hconnected.first 1 rfl, fun i hi j hj hone hone' => ?_⟩
  exact hconnected.distinct i ((mem_nodes hi).resolve_left (by omega)) j
    ((mem_nodes hj).resolve_left (by omega))

theorem setUp_nonneg (h : setUp sys net sp t = .runs socfd' t') {i : ℕ} (hi : i ≤ NUMOFSOC) :
    0 ≤ socfd' i := by
  obtain ⟨-, hnbd, hconnected⟩ := setUp_runs h
  rcases mem_nodes hi with rfl | hi
  · rw [hnbd]
    exact t.take.2.take_nonneg
  · exact t'.nonneg _ (hconnected.mem i hi)

theorem setUp_toNat (h : setUp sys net sp t = .runs socfd' t') {i : ℕ} (hi : i ≤ NUMOFSOC) :
    ((socfd' i).toNat : ℤ) = socfd' i :=
  Int.toNat_of_nonneg (setUp_nonneg h hi)

/-- The numbers are low: few descriptors were open before. -/
theorem setUp_low (h : setUp sys net sp t = .runs socfd' t') (hparent : sys.fork ≠ some 0) {i : ℕ}
    (hi : i ≤ NUMOFSOC) : socfd' i < t.fds.card + 10 := by
  obtain ⟨-, hnbd, hconnected⟩ := setUp_runs h
  rw [if_neg hparent] at hconnected
  have hcard : t.take.2.take.2.fds.card = t.fds.card + 2 := by
    rw [Descriptors.card_take, Descriptors.card_take]
  rcases mem_nodes hi with rfl | hi
  · have hle := t.take.2.take_le_card
    rw [Descriptors.card_take] at hle
    rw [hnbd]
    omega
  · have hlow := hconnected.low i hi
    rw [hcard, List.length_range'] at hlow
    simp only [NUMOFSOC] at hlow
    omega

end SetUp

end PrivateCloud.Dispatch.Main
