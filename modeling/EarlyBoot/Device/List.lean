import EarlyBoot.Device
import EarlyBoot.HeapVec
import EarlyBoot.Machine

/-!
# Bringing devices up

A driver probes the hardware behind a device, attaches what it learned, and
reports a status.  `Device.bringUp` runs a driver, records the outcome and
decides whether the boot can go on.  A device list keeps its records on the
heap, in the order in which they were added.
-/

namespace EarlyBoot

open FirmwareM

inductive DeviceError where
  | critical (name : String) (status : DeviceStatus)
  | allocateRecord (name : String) (source : HeapError)
  deriving DecidableEq, Repr

def DeviceError.report : DeviceError → Report
  | critical name status => ⟨s!"critical device {name} is {status.describe}", []⟩
  | allocateRecord name source =>
      ⟨s!"failed to allocate the record for {name}", [source.message]⟩

/-- A driver reports a status and gives back the device, with its payload if there is one. -/
abbrev Driver (β : Type) := Device → MachineM β (DeviceStatus × Device)

/--
Runs a driver on a device.  A report that the device cannot follow makes it
faulty.  A device that does not end up initialised is an error if it is
critical.
-/
def Device.bringUp {β : Type} (device : Device) (driver : Driver β) (name : String)
    (critical : Bool) : MachineM β (Except DeviceError DeviceStatus × Device) := do
  info s!"Initializing {name}..."
  let previous := device.status
  let (reported, device) ← driver { device with name }
  let status ←
    if previous.canBecome reported then pure reported
    else do
      warn s!"{name}: driver reported {reported.describe} while {previous.describe}"
      pure .faulty
  let device := { device with status }
  if status = .initialised then
    info s!"{name}: ok"
    pure (.ok status, device)
  else
    warn s!"{name}: failed ({status.describe})"
    if critical then pure (.error (.critical name status), device) else pure (.ok status, device)

structure DeviceList where
  boxes : HeapVec (HeapBox DeviceRecord)
  deriving DecidableEq, Repr

namespace DeviceList

def empty : DeviceList := ⟨.empty⟩

def length (list : DeviceList) : Nat := list.boxes.length

def isEmpty (list : DeviceList) : Bool := list.length = 0

def devices (list : DeviceList) (s : Firmware) : List Device :=
  (list.boxes.toList s.memory).map (Device.ofRecord s)

def find? (list : DeviceList) (name : String) (s : Firmware) : Option Device :=
  (list.devices s).find? (·.name = name)

def push (list : DeviceList) (box : HeapBox DeviceRecord) :
    FirmwareM (Except HeapError DeviceList) := do
  return (← list.boxes.push box).map DeviceList.mk

def bringUp {β : Type} (list : DeviceList) (driver : Driver β) (name : String)
    (access : DeviceAccess) (critical : Bool) :
    MachineM β (Except DeviceError (DeviceStatus × DeviceList)) := do
  let device := Device.new name access
  match ← device.toRecord with
  | .error error => pure (.error (.allocateRecord name error))
  | .ok box =>
      let (outcome, device) ←
        MachineM.unwinding box.free (device.bringUp driver name critical)
      device.store box
      match outcome with
      | .error error =>
          Owned.drop box
          pure (.error error)
      | .ok status =>
          match ← list.push box with
          | .error error => pure (.error (.allocateRecord name error))
          | .ok list => pure (.ok (status, list))

/-- Changes the status of every device with the given name; answers their number. -/
def setStatus (list : DeviceList) (name : String) (status : DeviceStatus) : FirmwareM Nat := do
  let named ← view fun s =>
    (list.boxes.toList s.memory).filter fun box => (Device.ofRecord s box).name = name
  named.forM fun box => do box.set { ← box.get with status }
  pure named.length

instance : Owned DeviceList := ⟨fun list => Owned.drop list.boxes⟩

end DeviceList

end EarlyBoot
