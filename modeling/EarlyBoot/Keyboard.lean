import EarlyBoot.Device.List

/-!
# The keyboard controller

An 8042 controller with two ports.  Nothing is written to it before its status
says that it takes input, and nothing is read before it says that output is
waiting; either wait gives up after a bounded number of status reads.
-/

namespace EarlyBoot

inductive KeyboardError where
  | timeout (operation : String)
  | unexpectedResponse (operation : String) (response : UInt8)
  deriving DecidableEq, Repr

namespace KeyboardError

def message : KeyboardError → String
  | timeout operation => s!"8042 did not become ready for {operation}"
  | unexpectedResponse operation response =>
      s!"8042 answered 0x{Text.fixedHex 2 response.toNat} to {operation}"

def report (error : KeyboardError) : Report := ⟨error.message, []⟩

end KeyboardError

abbrev KeyboardM (β : Type) := ExceptT KeyboardError (MachineM β)

namespace Keyboard

open MachineM FirmwareM

variable {β : Type} [PortBus β]

def dataPort : UInt16 := 0x60

/-- Status when read, command when written. -/
def statusPort : UInt16 := 0x64

def outputFullBit : UInt8 := 0x01

def inputFullBit : UInt8 := 0x02

def readConfigCommand : UInt8 := 0x20
def writeConfigCommand : UInt8 := 0x60
def disableSecondCommand : UInt8 := 0xa7
def enableSecondCommand : UInt8 := 0xa8
def selfTestCommand : UInt8 := 0xaa
def disableFirstCommand : UInt8 := 0xad
def enableFirstCommand : UInt8 := 0xae
def writeSecondCommand : UInt8 := 0xd4

def deviceReset : UInt8 := 0xff
def deviceAcknowledge : UInt8 := 0xfa
def selfTestPassed : UInt8 := 0x55

/-- Set in the configuration if the clock of the second port is off. -/
def secondClockDisabledBit : UInt8 := 0x20

/-- Bring-up turns interrupts and translation off and keeps the rest. -/
def keptBits : UInt8 := 0xbc

def pollLimit : Nat := 5000

def takesInput : MachineM β Bool := return (← readByte statusPort) &&& inputFullBit == 0

def hasOutput : MachineM β Bool := return (← readByte statusPort) &&& outputFullBit != 0

def await (ready : MachineM β Bool) (operation : String) : KeyboardM β Unit := do
  unless ← ExceptT.lift (pollUntil ready pollLimit) do throw (.timeout operation)

def send (port : UInt16) (value : UInt8) (operation : String) : KeyboardM β Unit := do
  await takesInput operation
  ExceptT.lift (writeByte port value)

def sendCommand (command : UInt8) (operation : String) : KeyboardM β Unit :=
  send statusPort command operation

def sendData (value : UInt8) (operation : String) : KeyboardM β Unit :=
  send dataPort value operation

def receive (operation : String) : KeyboardM β UInt8 := do
  await hasOutput operation
  ExceptT.lift (readByte dataPort)

def expect (response wanted : UInt8) (operation : String) : KeyboardM β Unit := do
  unless response = wanted do throw (.unexpectedResponse operation response)

def readConfig : KeyboardM β UInt8 := do
  sendCommand readConfigCommand "read config"
  receive "read config"

/-- Writes the configuration and checks that it sticks. -/
def writeConfig (config : UInt8) : KeyboardM β Unit := do
  sendCommand writeConfigCommand "write config"
  sendData config "write config"
  expect (← readConfig) config "write config"

def selfTest : KeyboardM β Unit := do
  sendCommand selfTestCommand "self test"
  expect (← receive "self test") selfTestPassed "self test"

def disablePorts : KeyboardM β Unit := do
  sendCommand disableFirstCommand "disable first port"
  sendCommand disableSecondCommand "disable second port"

def enablePorts (dualChannel : Bool) : KeyboardM β Unit := do
  sendCommand enableFirstCommand "enable first port"
  if dualChannel then sendCommand enableSecondCommand "enable second port"

def resetDevice (second : Bool) : KeyboardM β Unit := do
  if second then sendCommand writeSecondCommand "reset device"
  sendData deviceReset "reset device"
  expect (← receive "reset device") deviceAcknowledge "reset device"

def driver : Driver β := fun device => do
  match ← readConfig.run with
  | .error error =>
      debug error.message
      pure (.notPresent, device)
  | .ok initial =>
      let config := initial &&& keptBits
      match ← (writeConfig config).run with
      | .error error =>
          debug error.message
          pure (.faulty, device)
      | .ok () =>
          match ← selfTest.run with
          | .error error =>
              debug error.message
              if let .error error ← (writeConfig initial).run then
                logError
                  s!"8042 stopped responding, restoring config failed: {error.message}"
              pure (.faulty, device)
          | .ok () =>
              device.complete (.keyboard
                { configuration := config, dualChannel := initial &&& secondClockDisabledBit != 0 })

end Keyboard

end EarlyBoot
