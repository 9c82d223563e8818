import EarlyBoot.Text.Number
import EarlyBoot.Word

/-!
# I/O ports

Hardware is reached through reads and writes of ports, one, two or four bytes
wide.  A bus is any state that answers reads and takes writes; every read may
change it.  The accesses made are recorded in a trace, in which consecutive
equal accesses share one entry.
-/

namespace EarlyBoot

inductive Width where
  | byte
  | word
  | dword
  deriving DecidableEq, Repr

def Width.bytes : Width → Nat
  | byte => 1
  | word => 2
  | dword => 4

def Width.mask : Width → UInt32
  | byte => 0xff
  | word => 0xffff
  | dword => 0xffffffff

class PortBus (β : Type) where
  read : β → Width → UInt16 → UInt32 × β
  write : β → Width → UInt16 → UInt32 → β

/-- A write to this port takes time and does nothing else. -/
def delayPort : UInt16 := 0x80

inductive Access where
  | read (width : Width) (port : UInt16) (value : UInt32)
  | write (width : Width) (port : UInt16) (value : UInt32)
  | delay
  deriving DecidableEq, Repr

def Access.ofWrite (width : Width) (port : UInt16) (value : UInt32) : Access :=
  if port = delayPort then .delay else .write width port value

/-- Runs of equal accesses with their lengths, newest first. -/
structure Trace where
  runs : List (Access × Nat)
  deriving DecidableEq, Repr

namespace Trace

def empty : Trace := ⟨[]⟩

def record (t : Trace) (access : Access) : Trace :=
  match t.runs with
  | (last, count) :: rest =>
      if last = access then ⟨(last, count + 1) :: rest⟩ else ⟨(access, 1) :: (last, count) :: rest⟩
  | [] => ⟨[(access, 1)]⟩

/-- The accesses in the order in which they were made. -/
def accesses (t : Trace) : List Access :=
  t.runs.reverse.flatMap fun (access, count) => List.replicate count access

theorem accesses_record (t : Trace) (access : Access) :
    (t.record access).accesses = t.accesses ++ [access] := by
  obtain ⟨runs⟩ := t
  cases runs with
  | nil => rfl
  | cons run rest =>
      obtain ⟨last, count⟩ := run
      unfold record accesses
      by_cases h : last = access
      · subst h
        simp [List.flatMap_append, List.replicate_succ']
      · simp [h, List.flatMap_append]

def count (t : Trace) (kind : Access → Bool) : Nat :=
  Word.total ((t.runs.filter (kind ·.1)).map (·.2))

def reads (t : Trace) : Nat := t.count fun | .read .. => true | _ => false

def writes (t : Trace) : Nat := t.count fun | .write .. => true | _ => false

def delays (t : Trace) : Nat := t.count fun | .delay => true | _ => false

def describeAccess : Access → String
  | .read width port value =>
      s!"R{width.bytes} {Text.hex port.toNat}={Text.hex value.toNat}"
  | .write width port value =>
      s!"W{width.bytes} {Text.hex port.toNat}={Text.hex value.toNat}"
  | .delay => "D"

def describeRun : Access × Nat → String
  | (access, 1) => describeAccess access
  | (access, count) => s!"{describeAccess access}*{count}"

def shownFirst : Nat := 600

def shownLast : Nat := 40

/-- One entry for every run; the middle of a long trace is left out. -/
def describe (t : Trace) : String :=
  let runs := t.runs.reverse
  let length := runs.length
  let texts :=
    if length ≤ shownFirst + shownLast then runs.map describeRun
    else
      (runs.take shownFirst).map describeRun ++
        [s!"... {length - shownFirst - shownLast}"] ++
        (runs.drop (length - shownLast)).map describeRun
  "; ".intercalate texts

end Trace

end EarlyBoot
