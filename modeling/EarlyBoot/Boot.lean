import EarlyBoot.Ata.Scan
import EarlyBoot.Cmos
import EarlyBoot.Config
import EarlyBoot.Keyboard
import EarlyBoot.Pci.Enumerate
import EarlyBoot.Pit
import EarlyBoot.Uart

/-!
# Bringing up the platform

The legacy devices of a PC come up in a fixed order, then PCI is enumerated and
the IDE controllers found there are scanned.  Either the whole platform comes
up, or everything that was recorded is released again.
-/

namespace EarlyBoot

open MachineM FirmwareM

inductive BootError where
  | legacyDevice (source : DeviceError)
  | pciEnumeration (source : PciError)
  | ataScan (source : HeapError)
  deriving DecidableEq, Repr

namespace BootError

def message : BootError → String
  | legacyDevice _ => "legacy device bring-up failed"
  | pciEnumeration _ => "PCI enumeration failed"
  | ataScan _ => "failed to record ATA controllers"

def source : BootError → Report
  | legacyDevice source => source.report
  | pciEnumeration source => source.report
  | ataScan source => source.report

def report (error : BootError) : Report :=
  ⟨error.message, error.source.message :: error.source.causes⟩

end BootError

structure Platform where
  /-- The legacy devices in the order in which they were brought up. -/
  devices : DeviceList
  pci : DeviceList
  ide : HeapVec IdeController
  deriving DecidableEq, Repr

instance : Owned Platform where
  drop platform :=
    andAlso (Owned.drop platform.devices) (andAlso (Owned.drop platform.pci)
      (Owned.drop platform.ide))

namespace Platform

variable {β : Type}

/-- Functions behind a bridge are indented. -/
def describeFunction (device : Device) (function : PciFunction) : String :=
  let indent := if function.address.bus = 0 then "" else "  "
  let vendor := Text.fixedHex 4 function.vendorId.toNat
  let model := Text.fixedHex 4 function.deviceId.toNat
  let access := device.access.describe
  s!"{indent}{function.address.describe} [{vendor}:{model}] {device.name} ({access})"

def summaryOfDevice (m : Memory) (device : Device) : Option String :=
  match device.payload? m with
  | some (.pci function) => some (describeFunction device function)
  | _ => none

def summaryOfController (controller : IdeController) : List String :=
  controller.buses.val.flatMap fun bus => bus.drives.map (·.describe bus.base)

def summary (platform : Platform) (s : Firmware) : List String :=
  (platform.pci.devices s).filterMap (summaryOfDevice s.memory) ++
    (platform.ide.toList s.memory).flatMap summaryOfController

def logSummary (platform : Platform) : FirmwareM Unit := do
  (← view platform.summary).forM info

structure LegacyDevice (β : Type) where
  name : String
  isCritical : Bool
  driver : Driver β

section Bus

variable [PortBus β]

def uart (config : BootConfig) : LegacyDevice β :=
  ⟨"UART 1", config.critical.uart, Uart.driver ⟨BootConfig.serialPort⟩ config.uartDivisor⟩

def laterDevices (config : BootConfig) : List (LegacyDevice β) :=
  [⟨"8259/PIC", config.critical.pic, Pic.driver⟩,
    ⟨"CMOS/RTC", config.critical.cmos, Cmos.driver⟩,
    ⟨"8042/PS2", config.critical.keyboard, Keyboard.driver⟩,
    ⟨"825X/PIT", config.critical.pit, Pit.driver config.pitReload⟩]

end Bus

def bringUpDevice (devices : DeviceList) (device : LegacyDevice β) :
    MachineM β (Except DeviceError (DeviceStatus × DeviceList)) :=
  guarding (Owned.drop devices)
    (devices.bringUp device.driver device.name .pio device.isCritical)

def bringUpDevices (devices : DeviceList) :
    List (LegacyDevice β) → MachineM β (Except DeviceError DeviceList)
  | [] => pure (.ok devices)
  | device :: rest => do
      match ← bringUpDevice devices device with
      | .ok (_, devices) => bringUpDevices devices rest
      | .error error => pure (.error error)

/-- The first messages, on a console that may only work from here on. -/
def announce (config : BootConfig) (console : Option Sink) (uart : DeviceStatus) :
    FirmwareM Unit := do
  let works := uart == .initialised
  if let some sink := console then
    if works then installConsole sink
  info s!"{BootConfig.firmwareName} {BootConfig.firmwareVersion}"
  if works then
    let port := Text.hex BootConfig.serialPort.toNat
    info s!"Default output device: UART 1 at 0x{port} with {config.baudRate} baud"

section Bus

variable [PortBus β]

def legacyDevices (config : BootConfig) (console : Option Sink) :
    MachineM β (Except DeviceError DeviceList) := do
  match ← bringUpDevice .empty (uart config) with
  | .error error => pure (.error error)
  | .ok (status, devices) =>
      announce config console status
      bringUpDevices devices (laterDevices config)

/--
Brings up the chipset.  A console that is given is installed as soon as the
serial port works, so that every later message reaches it.
-/
def bringUp (config : BootConfig) (console : Option Sink) :
    MachineM β (Except BootError Platform) := do
  match ← legacyDevices config console with
  | .error error => pure (.error (.legacyDevice error))
  | .ok devices =>
      match ← guarding (Owned.drop devices) Pci.discover with
      | .error error => pure (.error (.pciEnumeration error))
      | .ok pci =>
          let release := andAlso (Owned.drop pci) (Owned.drop devices)
          match ← guarding release (Ata.scanControllers pci) with
          | .error error => pure (.error (.ataScan error))
          | .ok ide =>
              let platform : Platform := { devices, pci, ide }
              platform.logSummary
              pure (.ok platform)

end Bus

end Platform

end EarlyBoot
