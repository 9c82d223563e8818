/-!
# Console

The console sends text to at most one sink; without a sink the text is lost.
What every sink has been sent is kept in the transcript.  Log messages carry a
level, and those below the console's maximum level are dropped.
-/

namespace EarlyBoot

inductive LogLevel where
  | trace
  | debug
  | info
  | warn
  | error
  deriving DecidableEq, Repr

namespace LogLevel

def severity : LogLevel → Nat
  | trace => 0
  | debug => 1
  | info => 2
  | warn => 3
  | error => 4

def name : LogLevel → String
  | trace => "Trace"
  | debug => "Debug"
  | info => "Info"
  | warn => "Warn"
  | error => "Error"

def tag : LogLevel → String
  | trace => "TRACE"
  | debug => "DEBUG"
  | info => " INFO"
  | warn => " WARN"
  | error => "ERROR"

def color : LogLevel → Nat
  | trace => 35
  | debug => 34
  | info => 32
  | warn => 33
  | error => 31

def line (level : LogLevel) (message : String) : String :=
  s!"\x1b[{level.color};1m{level.tag}\x1b[0m {message}\n"

end LogLevel

structure Sink where
  name : String
  deriving DecidableEq, Repr

structure Console where
  maxLevel : LogLevel
  sink : Option Sink
  /-- What was sent to which sink, newest first. -/
  transcript : List (Sink × String)
  deriving DecidableEq, Repr

namespace Console

def silent (maxLevel : LogLevel) : Console := ⟨maxLevel, none, []⟩

def isEnabled (c : Console) : Bool := c.sink.isSome

def install (c : Console) (sink : Sink) : Console := { c with sink := some sink }

def uninstall (c : Console) : Console := { c with sink := none }

/-- Sends text to a sink whether it is installed or not. -/
def send (c : Console) (sink : Sink) (text : String) : Console :=
  { c with transcript := (sink, text) :: c.transcript }

def print (c : Console) (text : String) : Console :=
  match c.sink with
  | some sink => c.send sink text
  | none => c

def logs (c : Console) (level : LogLevel) : Bool := c.maxLevel.severity ≤ level.severity

def log (c : Console) (level : LogLevel) (message : String) : Console :=
  if c.logs level then c.print (level.line message) else c

def received (c : Console) (sink : Sink) : String :=
  String.join ((c.transcript.reverse.filter (·.1 = sink)).map (·.2))

def forget (c : Console) : Console := { c with transcript := [] }

end Console

end EarlyBoot
