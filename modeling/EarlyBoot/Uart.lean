import EarlyBoot.Device.List

/-!
# The serial port

A 16550 serial port.  Bytes are sent one at a time, each after the line status
says that the transmitter is idle, and a line feed is sent behind a carriage
return.  Sending gives up when the transmitter stays busy.
-/

namespace EarlyBoot

open MachineM

structure Uart where
  base : UInt16
  deriving DecidableEq, Repr

namespace Uart

variable {β : Type} [PortBus β]

def dataOffset : UInt16 := 0
def interruptEnableOffset : UInt16 := 1
def fifoControlOffset : UInt16 := 2
def lineControlOffset : UInt16 := 3
def modemControlOffset : UInt16 := 4
def lineStatusOffset : UInt16 := 5

def divisorLatchBit : UInt8 := 0x80

def receiveReadyBit : UInt8 := 0x01

def transmitIdleBit : UInt8 := 0x20

/-- Eight data bits, no parity, one stop bit. -/
def lineControl : UInt8 := 0x03

def fifoControl : UInt8 := 0x01

def modemControl : UInt8 := 0x03

def pollLimit : Nat := 50000

def carriageReturn : UInt8 := 0x0d

def lineFeed : UInt8 := 0x0a

def writeRegister (uart : Uart) (offset : UInt16) (value : UInt8) : MachineM β Unit :=
  writeByte (uart.base + offset) value

def lineStatus (uart : Uart) : MachineM β UInt8 := readByte (uart.base + lineStatusOffset)

/-- Nothing drives the line status of a port that is not there. -/
def isPresent (uart : Uart) : MachineM β Bool := return (← uart.lineStatus) != 0xff

def isTransmitIdle (uart : Uart) : MachineM β Bool :=
  return (← uart.lineStatus) &&& transmitIdleBit != 0

def isReceiveReady (uart : Uart) : MachineM β Bool :=
  return (← uart.lineStatus) &&& receiveReadyBit != 0

def configure (uart : Uart) (divisor : UInt16) : MachineM β UartSettings := do
  uart.writeRegister interruptEnableOffset 0
  uart.writeRegister lineControlOffset divisorLatchBit
  uart.writeRegister dataOffset divisor.toUInt8
  uart.writeRegister interruptEnableOffset (divisor >>> 8).toUInt8
  uart.writeRegister lineControlOffset lineControl
  uart.writeRegister fifoControlOffset fifoControl
  uart.writeRegister modemControlOffset modemControl
  pure { basePort := uart.base, divisor, lineControl, fifoControl }

def driver (uart : Uart) (divisor : UInt16) : Driver β := fun device => do
  if ← uart.isPresent then
    let settings ← uart.configure divisor
    device.complete (.uart settings)
  else pure (.notPresent, device)

def waitTransmitIdle (uart : Uart) : MachineM β Bool := pollUntil uart.isTransmitIdle pollLimit

/-- Sends one byte as it is; fails if the transmitter stays busy. -/
def transmit (uart : Uart) (byte : UInt8) : MachineM β Bool := do
  if ← uart.waitTransmitIdle then
    uart.writeRegister dataOffset byte
    pure true
  else pure false

/-- Sends one byte, a line feed behind a carriage return. -/
def send (uart : Uart) (byte : UInt8) : MachineM β Bool := do
  if byte = lineFeed then
    if ← uart.transmit carriageReturn then uart.transmit byte else pure false
  else uart.transmit byte

def sendFrom (uart : Uart) (sent : Nat) : List UInt8 → MachineM β Nat
  | [] => pure sent
  | byte :: rest => do
      if ← uart.send byte then uart.sendFrom (sent + 1) rest else pure sent

def writeBytes (uart : Uart) (bytes : List UInt8) : MachineM β Nat := uart.sendFrom 0 bytes

/-- The bytes already received, at most `limit` of them. -/
def readBytes (uart : Uart) : Nat → MachineM β (List UInt8)
  | 0 => pure []
  | limit + 1 => do
      if ← uart.isReceiveReady then
        let byte ← readByte (uart.base + dataOffset)
        return byte :: (← uart.readBytes limit)
      else pure []

end Uart

end EarlyBoot
