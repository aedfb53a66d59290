import Mathlib.Data.UInt
import Vespera.Klib.Result

/-! # Handle tables

`kernel/realm/handle_table.cpp`, over an arbitrary type of resources. A slot
whose bitmap bit is clear is `none`; the `destroy` callback of an entry that
goes away is the resource that `release` and `clear` hand back.
-/

namespace Vespera.Realms

open Klib

def maxHandlesPerRealm : Nat := 4096

/-- The handle types of `uapi/vespera/handles.h` (the upper 16 bits). -/
inductive HandleType where
  | file | directory | channel | unit | realm | device | pipe | shm | fifo | socket | eventfd
  | timerfd | signalfd
deriving Repr, DecidableEq

/-- The type bits. -/
def HandleType.bits : HandleType → UInt64
  | .file => 0x2000000000000000
  | .directory => 0x3000000000000000
  | .channel => 0x4000000000000000
  | .unit => 0x5000000000000000
  | .realm => 0x6000000000000000
  | .device => 0x7000000000000000
  | .pipe => 0x8000000000000000
  | .shm => 0x9000000000000000
  | .fifo => 0x1100000000000000
  | .socket => 0x1200000000000000
  | .eventfd => 0x1300000000000000
  | .timerfd => 0x1400000000000000
  | .signalfd => 0x1500000000000000

/-- `hid & HANDLE_ID_MASK`. -/
def slotOf (hid : UInt64) : Nat := (hid &&& 0x0000FFFFFFFFFFFF).toNat

def capRead : UInt64 := 1
def capWrite : UInt64 := 2
def capDeviceAccess : UInt64 := 0x200

def handleStdin : UInt64 := HandleType.device.bits ||| 0
def handleStdout : UInt64 := HandleType.device.bits ||| 1
def handleStderr : UInt64 := HandleType.device.bits ||| 2
def handleVbus : UInt64 := HandleType.channel.bits ||| 3

/-- `struct HandleEntry`. -/
structure HandleEntry (ρ : Type) where
  hid : UInt64
  type : HandleType
  resource : ρ
  capabilities : UInt64
  refcount : Nat
  transferable : Bool
deriving Repr, DecidableEq

/-- `class HandleTable`: `entries_` together with `bitmap_`. -/
structure HandleTable (ρ : Type) where
  entries : Nat → Option (HandleEntry ρ)

namespace HandleTable

variable {ρ : Type}

def init : HandleTable ρ := ⟨fun _ => none⟩

variable (t : HandleTable ρ)

/-- Overwrite one slot. -/
def setSlot (slot : Nat) (e : Option (HandleEntry ρ)) : HandleTable ρ :=
  ⟨fun i => if i = slot then e else t.entries i⟩

def lookup (hid : UInt64) : Option (HandleEntry ρ) :=
  let slot := slotOf hid
  if slot ≥ maxHandlesPerRealm then none
  else match t.entries slot with
  | none => none
  | some he => if he.hid ≠ hid then none else some he

def addAt (fixedId : UInt64) (type : HandleType) (resource : ρ)
    (caps : UInt64) (transferable : Bool) : Except Error (HandleTable ρ) :=
  let slot := slotOf fixedId
  if slot ≥ maxHandlesPerRealm then .error .badH
  else if (t.entries slot).isSome then .error .badH
  else .ok (t.setSlot slot (some ⟨fixedId, type, resource, caps, 1, transferable⟩))

/-- `HandleTable::release`, and the resource whose `destroy` it calls. -/
def release (hid : UInt64) : HandleTable ρ × Option ρ :=
  match t.lookup hid with
  | none => (t, none)
  | some he =>
    if he.refcount - 1 = 0 then (t.setSlot (slotOf hid) none, some he.resource)
    else (t.setSlot (slotOf hid) (some { he with refcount := he.refcount - 1 }), none)

@[simp] theorem setSlot_entries_self (slot : Nat)
    (e : Option (HandleEntry ρ)) : (t.setSlot slot e).entries slot = e := if_pos rfl

theorem setSlot_entries_of_ne {t : HandleTable ρ} {slot i : Nat} {e : Option (HandleEntry ρ)}
    (h : i ≠ slot) : (t.setSlot slot e).entries i = t.entries i := if_neg h

end HandleTable

end Vespera.Realms
