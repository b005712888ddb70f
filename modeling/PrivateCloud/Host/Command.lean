import Mathlib.Logic.Function.Basic
import PrivateCloud.Nbd.Comm

/-! What goes to an IoT node and who puts it there: `command.hpp`, `command.cpp` and
`factory.hpp`.

A message is an `AtlasHeader`, followed by a fragment of the request's buffer if it is
a WRITE. The send loop asks a factory for the command of the request's type; the
dispatcher's constructor registers the two commands there are, and a key nobody
registered has no creator to call. -/
namespace PrivateCloud.Host
open Nbd

structure AtlasHeader where
  requestUid : UInt32
  fragmentUid : UInt32
  alarmUid : UInt32
  iotOffset : UInt32
  type : UInt32
  len : UInt32
  deriving DecidableEq

def sizeofAtlasHeader : ℕ := 24

namespace AtlasHeader

/-- The header in memory, and on the wire: it is sent as it lies. -/
def store (h : AtlasHeader) : List UInt8 :=
  Bytes.toLE 4 h.requestUid.toNat ++ (Bytes.toLE 4 h.fragmentUid.toNat ++
    (Bytes.toLE 4 h.alarmUid.toNat ++ (Bytes.toLE 4 h.iotOffset.toNat ++
      (Bytes.toLE 4 h.type.toNat ++ (Bytes.toLE 4 h.len.toNat ++ [])))))

def load (bytes : List UInt8) : AtlasHeader where
  requestUid := loadU32 (Bytes.field bytes 0 4)
  fragmentUid := loadU32 (Bytes.field bytes 4 4)
  alarmUid := loadU32 (Bytes.field bytes 8 4)
  iotOffset := loadU32 (Bytes.field bytes 12 4)
  type := loadU32 (Bytes.field bytes 16 4)
  len := loadU32 (Bytes.field bytes 20 4)

@[simp] theorem store_length (h : AtlasHeader) : h.store.length = sizeofAtlasHeader := by
  simp only [store, List.length_append, Bytes.toLE_length, List.length_nil]
  rfl

/-- The uid is what the header starts with. -/
theorem store_take (h : AtlasHeader) : h.store.take 4 = Bytes.toLE 4 h.requestUid.toNat := by
  rw [store, List.take_left' (Bytes.toLE_length ..)]

theorem load_store (h : AtlasHeader) : load h.store = h := by
  have here (x : UInt32) (back : List UInt8) :
      loadU32 (Bytes.field (Bytes.toLE 4 x.toNat ++ back) 0 4) = x := by
    rw [Bytes.field_here (Bytes.toLE_length ..), loadU32_toLE]
  have skip (n at_ : ℕ) (back : List UInt8) :
      Bytes.field (Bytes.toLE 4 n ++ back) (at_ + 4) 4 = Bytes.field back at_ 4 := by
    have hn : (Bytes.toLE 4 n).length = 4 := Bytes.toLE_length ..
    rw [Bytes.field_skip (by omega), hn, Nat.add_sub_cancel]
  cases h
  simp only [load, store, mk.injEq]
  refine ⟨here _ _, ?_, ?_, ?_, ?_, ?_⟩
  · rw [skip _ 0, here]
  · rw [skip _ 4, skip _ 0, here]
  · rw [skip _ 8, skip _ 4, skip _ 0, here]
  · rw [skip _ 12, skip _ 8, skip _ 4, skip _ 0, here]
  · rw [skip _ 16, skip _ 12, skip _ 8, skip _ 4, skip _ 0, here]

end AtlasHeader

/-- What one task of a request sends from. A socket is named by its index in the
array of sockets, a place in the request's buffer by its distance from `dataBuf`. -/
structure SendMsgInfo where
  sockfd : ℕ
  atlasHeader : AtlasHeader
  startDataBuff : ℕ
  deriving DecidableEq

/-! ### Commands -/

inductive Command where
  | readRequest
  | writeRequest
  deriving DecidableEq

/-- What `SendRequest` sends behind the header. -/
def Command.sendRequest (dataBuf : Memory) (info : SendMsgInfo) : Command → List UInt8
  | .readRequest => []
  | .writeRequest => dataBuf.read info.startDataBuff info.atlasHeader.len.toNat

/-- `m_creators`; an absent key reads as the null creator. -/
abbrev Factory := UInt32 → Option Command

namespace Factory

def empty : Factory := fun _ => none

def add (key : UInt32) (command : Command) (f : Factory) : Factory :=
  Function.update f key (some command)

/-- The command for a key; `none` is a call through the null creator. -/
def create (f : Factory) (key : UInt32) : Option Command := f key

end Factory

/-- What `RequestDispatcher`'s constructor registers. -/
def creators : Factory :=
  (Factory.empty.add NBD_CMD_WRITE .writeRequest).add NBD_CMD_READ .readRequest

theorem creators_create (key : UInt32) (command : Command) (h : creators.create key = some command) :
    (key = NBD_CMD_READ ∧ command = .readRequest) ∨ (key = NBD_CMD_WRITE ∧ command = .writeRequest) := by
  simp only [Factory.create, creators, Factory.add, Function.update_apply, Factory.empty] at h
  split at h
  case isTrue hr => exact Or.inl ⟨hr, (Option.some.inj h).symm⟩
  case isFalse =>
    split at h
    case isTrue hw => exact Or.inr ⟨hw, (Option.some.inj h).symm⟩
    case isFalse => cases h

/-- Of a type that has a command. -/
def Registered (key : UInt32) : Prop := key = NBD_CMD_READ ∨ key = NBD_CMD_WRITE

instance (key : UInt32) : Decidable (Registered key) := inferInstanceAs (Decidable (_ ∨ _))

theorem registered_iff (key : UInt32) :
    Registered key ↔ ∃ command, creators.create key = some command := by
  constructor
  · rintro (rfl | rfl)
    · exact ⟨.readRequest, rfl⟩
    · exact ⟨.writeRequest, rfl⟩
  · rintro ⟨command, hcommand⟩
    exact (creators_create key command hcommand).imp And.left And.left

theorem create_eq_none {key : UInt32} (h : ¬Registered key) : creators.create key = none := by
  rw [registered_iff, not_exists] at h
  exact Option.eq_none_iff_forall_ne_some.mpr h

end PrivateCloud.Host
