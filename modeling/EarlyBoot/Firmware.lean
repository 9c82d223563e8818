import EarlyBoot.BlockHeap.Allocate
import EarlyBoot.Console
import EarlyBoot.Report
import EarlyBoot.Table

/-!
# The firmware's heap and console

Every subsystem allocates from one heap and logs to one console.  Running out
of memory is an ordinary answer; releasing memory that the heap does not
consider allocated halts the computation.  A halt unwinds: whatever the halted
computation still owned is released on the way out.

Names are static text, which is not kept in RAM.  The firmware remembers which
name was last given to the value at an address.
-/

namespace EarlyBoot

structure Firmware where
  memory : Memory
  heap : BlockHeap
  console : Console
  names : Table UInt64 String

inductive Halt where
  /-- The heap can no longer be trusted. -/
  | fatal (error : HeapError)
  | outOfBounds
  | overflow
  deriving DecidableEq, Repr

abbrev FirmwareM := EStateM Halt Firmware

namespace FirmwareM

variable {α : Type}

def halt (reason : Halt) : FirmwareM α := throw reason

/-- Runs `action`; if it halts, runs `cleanup` and halts for the same reason. -/
def unwinding (cleanup : FirmwareM Unit) (action : FirmwareM α) : FirmwareM α := fun s =>
  match action s with
  | .ok value s => .ok value s
  | .error reason s =>
      match cleanup s with
      | .ok () s => .error reason s
      | .error _ s => .error reason s

/-- Runs the second computation after the first, even if the first halts. -/
def andAlso (first second : FirmwareM Unit) : FirmwareM Unit := do
  unwinding second first
  second

def log (level : LogLevel) (message : String) : FirmwareM Unit :=
  fun s => .ok () { s with console := s.console.log level message }

def trace (message : String) : FirmwareM Unit := log .trace message

def debug (message : String) : FirmwareM Unit := log .debug message

def info (message : String) : FirmwareM Unit := log .info message

def warn (message : String) : FirmwareM Unit := log .warn message

def logError (message : String) : FirmwareM Unit := log .error message

def installConsole (sink : Sink) : FirmwareM Unit := fun s =>
  .ok () { s with console := s.console.install sink }

def view (query : Firmware → α) : FirmwareM α := fun s => .ok (query s) s

def look (query : Memory → α) : FirmwareM α := view fun s => query s.memory

def change (update : Memory → Memory) : FirmwareM Unit :=
  fun ⟨memory, heap, console, names⟩ => .ok () ⟨update memory, heap, console, names⟩

def setName (address : UInt64) (name : String) : FirmwareM Unit := fun s =>
  .ok () { s with names := s.names.insert address name }

def onHeap (operation : BlockHeap → HeapM α) : FirmwareM (Except HeapError α) :=
  fun ⟨memory, heap, console, names⟩ =>
    match operation heap memory with
    | .ok value memory => .ok (.ok value) ⟨memory, heap, console, names⟩
    | .error (.report error) memory => .ok (.error error) ⟨memory, heap, console, names⟩
    | .error .overflow memory => .error .overflow ⟨memory, heap, console, names⟩

/-- Halts on an error after which the heap cannot be trusted. -/
def haltIfFatal (error : HeapError) : FirmwareM Unit :=
  if error.isFatal then halt (.fatal error) else pure ()

end FirmwareM

namespace Heap

open FirmwareM

def init (start size : Nat) : FirmwareM (Except HeapError Unit) :=
  fun ⟨memory, heap, console, names⟩ =>
    match heap.init start size memory with
    | .ok heap memory =>
        let message :=
          s!"heap: {heap.arenaSize} bytes at 0x{Text.hex start}, split factor {heap.splitFactor}"
        .ok (.ok ()) ⟨memory, heap, console.log .info message, names⟩
    | .error (.report error) memory => .ok (.error error) ⟨memory, heap, console, names⟩
    | .error .overflow memory => .error .overflow ⟨memory, heap, console, names⟩

def setSplitFactor (splitFactor : Nat) : FirmwareM Unit := fun s =>
  .ok () { s with heap := s.heap.setSplitFactor splitFactor }

def malloc (size : Nat) : FirmwareM (Except HeapError Nat) := do
  let result ← onHeap (·.allocate size)
  if let .error error := result then
    trace s!"malloc({size}) failed: {error.message}"
  pure result

def calloc (count size : Nat) : FirmwareM (Except HeapError Nat) :=
  onHeap (·.allocateZeroed count size)

def allocate (size align : Nat) : FirmwareM (Except HeapError Nat) :=
  onHeap (·.allocateAligned size align)

def realloc (address size : Nat) : FirmwareM (Except HeapError Nat) :=
  onHeap (·.resize address size)

def tryFree (address : Nat) : FirmwareM (Except HeapError Unit) :=
  onHeap (·.release address)

/-- Releases an allocation; every error is fatal. -/
def free (address : Nat) : FirmwareM Unit := do
  match ← tryFree address with
  | .ok () => pure ()
  | .error error => halt (.fatal error)

def usableSize (address : Nat) : FirmwareM (Except HeapError Nat) :=
  onHeap fun heap => MemoryM.inspect (heap.usableSize · address)

def stats : FirmwareM HeapStats := fun s => .ok (s.heap.stats s.memory) s

def check : FirmwareM (Except HeapError Unit) :=
  onHeap fun heap => MemoryM.inspect heap.check

/-- The address on success, `none` on a refusal; a heap that cannot be trusted halts. -/
def addressOrNone : Except HeapError Nat → FirmwareM (Option Nat)
  | .ok address => pure (some address)
  | .error error => do
      haltIfFatal error
      pure none

def globalAlloc (size align : Nat) : FirmwareM (Option Nat) := do
  addressOrNone (← allocate size align)

def globalAllocZeroed (size align : Nat) : FirmwareM (Option Nat) := do
  let result ← globalAlloc size align
  if let some address := result then
    change (·.fill address size 0)
  pure result

def globalDealloc (address : Nat) : FirmwareM Unit :=
  if address = 0 then pure () else free address

def globalRealloc (address align newSize : Nat) : FirmwareM (Option Nat) := do
  if address = 0 ∨ BlockHeap.alignment < align then pure none
  else addressOrNone (← realloc address newSize)

end Heap

def HeapStats.describe (s : HeapStats) : String :=
  let sizes := s!"used: {s.used}, free: {s.free}, largest_free: {s.largestFree}"
  s!"Heap \x7b stats: HeapStats \x7b arena_size: {s.arenaSize}, blocks: {s.blocks}, {sizes} \x7d \x7d"

end EarlyBoot
