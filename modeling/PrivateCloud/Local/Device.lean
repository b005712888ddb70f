import PrivateCloud.Library.Linearizable
import PrivateCloud.Local.Server

/-! The device that the local server is.

As an object it is a storage that a request reads or writes as a whole. Its legal orders
are the runs of the local server (`legal_iff`), and a byte of it is what the last WRITE to
it put there (`run_storage`), whatever lies at its sides and came in between. What the
storage is at first is nobody's choice: `new` leaves it as it was. -/
namespace PrivateCloud.Local
open Nbd Object

/-- A request, done as the local server does it. -/
def device (storage : Memory) : Object Memory NbdMessage (List UInt8) where
  init := storage
  does storage message bytes storage' := handle message storage = (bytes, storage')

theorem legal_iff {storage storage' : Memory} {order : List (Commit ℕ NbdMessage (List UInt8))} :
    (device storage).Legal order storage' ↔
      run storage (order.map Commit.op) = (order.map Commit.res, storage') := by
  constructor
  · intro h
    induction h with
    | nil => rfl
    | @snoc order s t c _ hdoes ih =>
      have hhandle : handle c.op s = (c.res, t) := hdoes
      simp only [List.map_append, List.map_singleton]
      rw [run_snoc, ih, hhandle]
  · induction order using List.reverseRecOn generalizing storage' with
    | nil =>
      intro hrun
      obtain ⟨-, rfl⟩ := Prod.mk.inj hrun
      exact Legal.nil
    | append_singleton order c ih =>
      intro hrun
      simp only [List.map_append, List.map_singleton] at hrun
      rw [run_snoc] at hrun
      obtain ⟨hreplies, rfl⟩ := Prod.mk.inj hrun
      obtain ⟨hfront, hlast⟩ := List.append_inj' hreplies rfl
      refine (ih (Prod.ext hfront rfl)).snoc ?_
      show handle c.op _ = (c.res, _)
      rw [← List.singleton_inj.mp hlast]

/-- The replies to the first requests are the first replies. -/
theorem run_take (storage : Memory) (messages : List NbdMessage) (n : ℕ) :
    (run storage (messages.take n)).1 = (run storage messages).1.take n := by
  have hlen : (run storage messages).1.length = messages.length := run_length ..
  rcases Nat.le_total n messages.length with hle | hle
  · have hsplit := congrArg Prod.fst (run_append storage (messages.take n) (messages.drop n))
    have hfront : (run storage (messages.take n)).1.length = n := by
      rw [run_length, List.length_take, Nat.min_eq_left hle]
    rw [List.take_append_drop] at hsplit
    exact ((congrArg (List.take n) hsplit).trans (List.take_left' hfront)).symm
  · rw [List.take_of_length_le hle, List.take_of_length_le (hlen ▸ hle)]

/-! ### Byte by byte -/

/-- What a request puts at an address. -/
def puts (message : NbdMessage) (a : ℕ) : Option UInt8 :=
  let req := message.nbdReq
  if req.reqType = NBD_CMD_WRITE ∧ req.offset.toNat ≤ a ∧ a < req.offset.toNat + req.dataLen.toNat then
    some (req.dataBuf (a - req.offset.toNat))
  else none

/-- The byte that the last of these to put one there put at an address; the storage's own
otherwise. -/
def lastPut {α : Type*} (storage : Memory) (puts : α → ℕ → Option UInt8) (l : List α) (a : ℕ) : UInt8 :=
  (l.reverse.findSome? fun x => puts x a).getD (storage a)

theorem lastPut_snoc {α : Type*} (storage : Memory) (puts : α → ℕ → Option UInt8) (l : List α) (x : α)
    (a : ℕ) : lastPut storage puts (l ++ [x]) a = (puts x a).getD (lastPut storage puts l a) := by
  rw [lastPut, List.reverse_append, List.reverse_singleton, List.singleton_append,
    List.findSome?_cons]
  cases puts x a with
  | none => rfl
  | some byte => rfl

theorem handle_puts (message : NbdMessage) (storage : Memory) (a : ℕ) :
    (handle message storage).2 a = (puts message a).getD (storage a) := by
  by_cases hwrite : message.nbdReq.reqType = NBD_CMD_WRITE
  · rw [handle_write hwrite, puts]
    by_cases ha : message.nbdReq.offset.toNat ≤ a ∧
        a < message.nbdReq.offset.toNat + message.nbdReq.dataLen.toNat
    · rw [if_pos ⟨hwrite, ha⟩, Memory.write_read_inside _ _ ha.1 ha.2, Nat.zero_add]
      rfl
    · rw [if_neg (fun h => ha h.2), Memory.write_read_outside _ _ (by omega)]
      rfl
  · rw [puts, if_neg fun h => hwrite h.1]
    simp only [handle, stored, if_neg hwrite]
    rfl

/-- **Last write wins**, at every byte. -/
theorem run_storage (storage : Memory) (messages : List NbdMessage) :
    (run storage messages).2 = lastPut storage puts messages := by
  induction messages using List.reverseRecOn with
  | nil => rfl
  | append_singleton messages message ih =>
    funext a
    rw [run_snoc, lastPut_snoc, handle_puts, ih]

end PrivateCloud.Local
