import EarlyBoot.Text.Number
import EarlyBoot.Text.Writer

/-!
# Panic reports

When the firmware gives up, it writes the reason, the processor's registers and
the top of the stack.  Every value has sixteen hexadecimal digits, and four
values share a line.
-/

namespace EarlyBoot

structure CpuState where
  (rax rbx rcx rdx : UInt64)
  (rsi rdi rbp rsp : UInt64)
  (r8 r9 r10 r11 : UInt64)
  (r12 r13 r14 r15 : UInt64)
  (cs es ds ss : UInt64)
  (cr3 cr4 : UInt64)
  deriving DecidableEq, Repr, Inhabited

namespace CpuState

def named (state : CpuState) : List (String × UInt64) :=
  [("rax", state.rax), ("rbx", state.rbx), ("rcx", state.rcx), ("rdx", state.rdx),
    ("rsi", state.rsi), ("rdi", state.rdi), ("rbp", state.rbp), ("rsp", state.rsp),
    ("r8", state.r8), ("r9", state.r9), ("r10", state.r10), ("r11", state.r11),
    ("r12", state.r12), ("r13", state.r13), ("r14", state.r14), ("r15", state.r15),
    ("cs", state.cs), ("es", state.es), ("ds", state.ds), ("ss", state.ss),
    ("cr3", state.cr3), ("cr4", state.cr4)]

end CpuState

namespace PanicReport

abbrev Stack := Vector UInt64 16

def groupsOfFour {α : Type} : List α → List (List α)
  | a :: b :: c :: d :: rest => [a, b, c, d] :: groupsOfFour rest
  | [] => []
  | rest => [rest]

def table (separator : String) (entries : List String) : List String :=
  (groupsOfFour entries).map fun group => "\t" ++ separator.intercalate group ++ "\n"

def describeWord (word : UInt64) : String := Text.fixedHex 16 word.toNat

def describeRegister (register : String × UInt64) : String :=
  s!"{Text.padLeft 3 register.1}={describeWord register.2}"

def dump (state : CpuState) (stack : Stack) : List String :=
  "CPU State:\n" :: table "  " (state.named.map describeRegister) ++
    "STACK:\n" :: table " " (stack.toList.map describeWord)

def render (reason : String) (state : CpuState) (stack : Stack) : String :=
  s!"\n*** PANIC ***\nReason: {reason}\n" ++ String.join (dump state stack)

section

open Text (WriteM)
open Text.Writer (put)

variable {σ : Type} [Text.Writer σ]

def writeEntries (separator : String) : List String → WriteM σ Unit
  | [] => pure ()
  | [entry] => put entry
  | entry :: rest => do
      put entry
      put separator
      writeEntries separator rest

def writeTable (separator : String) (entries : List String) : WriteM σ Unit :=
  (groupsOfFour entries).forM fun group => do
    put "\t"
    writeEntries separator group
    put "\n"

/-- Writes the report as far as the writer takes it. -/
def write (reason : String) (state : CpuState) (stack : Stack) : WriteM σ Unit := do
  put s!"\n*** PANIC ***\nReason: {reason}\n"
  put "CPU State:\n"
  writeTable "  " (state.named.map describeRegister)
  put "STACK:\n"
  writeTable " " (stack.toList.map describeWord)

end

end PanicReport

end EarlyBoot
