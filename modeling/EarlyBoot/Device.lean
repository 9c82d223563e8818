import EarlyBoot.Device.Payload

/-!
# Devices

A device record tells in which state bring-up left a device and how it is
reached, and owns the payload that its driver attached.  Its name is static
text: the record has room for a reference to it, and storing a device gives the
name to the address of the record.  A computation that is given a device owns
its payload: if it halts, the payload is released.
-/

namespace EarlyBoot

open FirmwareM

inductive DeviceStatus where
  | unknown
  | notPresent
  | present
  | faulty
  | initialised
  deriving DecidableEq, Repr

namespace DeviceStatus

def describe : DeviceStatus → String
  | unknown => "unknown"
  | notPresent => "not present"
  | present => "present"
  | faulty => "faulty"
  | initialised => "initialised"

/-- A device may leave `unknown` for any state, and `present` for a final one. -/
def canBecome : DeviceStatus → DeviceStatus → Bool
  | unknown, next => next != unknown
  | present, faulty | present, initialised => true
  | _, _ => false

def code : DeviceStatus → UInt8
  | unknown => 0
  | notPresent => 1
  | present => 2
  | faulty => 3
  | initialised => 4

def ofCode (code : UInt8) : DeviceStatus :=
  match code.toNat with
  | 0 => unknown
  | 1 => notPresent
  | 2 => present
  | 3 => faulty
  | _ => initialised

instance : Stored DeviceStatus :=
  Stored.coded code ofCode (fun status => by cases status <;> rfl)

end DeviceStatus

inductive DeviceAccess where
  | pio
  | mmio
  | bridge
  deriving DecidableEq, Repr

namespace DeviceAccess

def describe : DeviceAccess → String
  | pio => "pio"
  | mmio => "mmio"
  | bridge => "bridge"

def code : DeviceAccess → UInt8
  | pio => 0
  | mmio => 1
  | bridge => 2

def ofCode (code : UInt8) : DeviceAccess :=
  match code.toNat with
  | 0 => pio
  | 1 => mmio
  | _ => bridge

instance : Stored DeviceAccess :=
  Stored.coded code ofCode (fun access => by cases access <;> rfl)

end DeviceAccess

structure DeviceRecord where
  status : DeviceStatus
  access : DeviceAccess
  payload : Option (HeapBox Payload)
  deriving DecidableEq, Repr

namespace DeviceRecord

/-- The payload comes first, then the two words that refer to the name. -/
instance : Stored DeviceRecord :=
  Stored.via 40 8
    (fun r => (r.payload, ((0 : UInt64), (0 : UInt64)), r.status, r.access))
    (fun (payload, _, status, access) => ⟨status, access, payload⟩)
    (fun _ => rfl) (by decide)

instance : Owned DeviceRecord := ⟨fun record => Owned.drop record.payload⟩

def payload? (record : DeviceRecord) (m : Memory) : Option Payload :=
  record.payload.map fun box => box.read m

end DeviceRecord

structure Device extends DeviceRecord where
  name : String
  deriving DecidableEq, Repr

namespace Device

def new (name : String) (access : DeviceAccess) : Device :=
  { name, status := .unknown, access, payload := none }

instance : Owned Device := ⟨fun device => Owned.drop device.payload⟩

def ofRecord (s : Firmware) (box : HeapBox DeviceRecord) : Device :=
  { toDeviceRecord := box.read s.memory, name := (s.names.get? box.address).getD "" }

def store (device : Device) (box : HeapBox DeviceRecord) : FirmwareM Unit := do
  box.set device.toDeviceRecord
  setName box.address device.name

/-- Moves a device to a record of its own; one for which there is no room is dropped. -/
def toRecord (device : Device) : FirmwareM (Except HeapError (HeapBox DeviceRecord)) := do
  match ← HeapBox.new device.toDeviceRecord with
  | .error error => pure (.error error)
  | .ok box =>
      setName box.address device.name
      pure (.ok box)

def attach (device : Device) (payload : Payload) : FirmwareM (Except HeapError Device) := do
  match ← HeapBox.new payload with
  | .error error => pure (.error error)
  | .ok box =>
      unwinding box.free (Owned.drop device.payload)
      pure (.ok { device with payload := some box })

/-- Attaches the payload of a device that works; one that does not fit makes it faulty. -/
def complete (device : Device) (payload : Payload) : FirmwareM (DeviceStatus × Device) := do
  match ← device.attach payload with
  | .ok device => pure (.initialised, device)
  | .error error =>
      unwinding (Owned.drop device) (haltIfFatal error)
      logError s!"{device.name}: cannot store device data: {error.message}"
      pure (.faulty, device)

end Device

end EarlyBoot
