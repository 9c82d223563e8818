import EarlyBoot.Firmware
import EarlyBoot.Port

/-!
# The machine

A machine is the firmware's state together with the bus it drives and the trace
of the accesses made so far.  Drivers are computations on a machine; they reach
their hardware through the port operations below and wait for it with bounded
polls only.
-/

namespace EarlyBoot

structure Machine (β : Type) where
  firmware : Firmware
  bus : β
  trace : Trace

abbrev MachineM (β : Type) := EStateM Halt (Machine β)

namespace MachineM

variable {α β : Type}

instance : MonadLift FirmwareM (MachineM β) where
  monadLift action := fun ⟨firmware, bus, trace⟩ =>
    match action firmware with
    | .ok value firmware => .ok value ⟨firmware, bus, trace⟩
    | .error reason firmware => .error reason ⟨firmware, bus, trace⟩

def unwinding (cleanup : FirmwareM Unit) (action : MachineM β α) : MachineM β α := fun s =>
  match action s with
  | .ok value s => .ok value s
  | .error reason ⟨firmware, bus, trace⟩ =>
      match cleanup firmware with
      | .ok () firmware => .error reason ⟨firmware, bus, trace⟩
      | .error _ firmware => .error reason ⟨firmware, bus, trace⟩

/-- Runs `action`; if it halts or answers with an error, `cleanup` runs as well. -/
def guarding {ε : Type} (cleanup : FirmwareM Unit) (action : MachineM β (Except ε α)) :
    MachineM β (Except ε α) := do
  match ← unwinding cleanup action with
  | .ok value => pure (.ok value)
  | .error error =>
      cleanup
      pure (.error error)

section Ports

variable [PortBus β]

def readPort (width : Width) (port : UInt16) : MachineM β UInt32 := fun ⟨firmware, bus, trace⟩ =>
  let (value, bus) := PortBus.read bus width port
  let value := value &&& width.mask
  .ok value ⟨firmware, bus, trace.record (.read width port value)⟩

def writePort (width : Width) (port : UInt16) (value : UInt32) : MachineM β Unit :=
  fun ⟨firmware, bus, trace⟩ =>
    .ok () ⟨firmware, PortBus.write bus width port value,
      trace.record (Access.ofWrite width port value)⟩

def readByte (port : UInt16) : MachineM β UInt8 := return (← readPort .byte port).toUInt8

def readWord (port : UInt16) : MachineM β UInt16 := return (← readPort .word port).toUInt16

def readDword (port : UInt16) : MachineM β UInt32 := readPort .dword port

def writeByte (port : UInt16) (value : UInt8) : MachineM β Unit :=
  writePort .byte port value.toUInt32

def writeWord (port : UInt16) (value : UInt16) : MachineM β Unit :=
  writePort .word port value.toUInt32

def writeDword (port : UInt16) (value : UInt32) : MachineM β Unit := writePort .dword port value

def delay : Nat → MachineM β Unit
  | 0 => pure ()
  | rounds + 1 => do
      writeByte delayPort 0
      delay rounds

end Ports

def pollUntil (ready : MachineM β Bool) : Nat → MachineM β Bool
  | 0 => pure false
  | limit + 1 => do
      if ← ready then pure true else pollUntil ready limit

end MachineM

end EarlyBoot
