import EarlyBoot.BlockHeap.Error

/-!
# Error reports

An error is reported with its own message and those of its causes, each on a
numbered line.  Conditions that the system cannot recover from are announced
with a heading in red.
-/

namespace EarlyBoot

structure Report where
  message : String
  causes : List String
  deriving DecidableEq, Repr

namespace Report

def causeLines (index : Nat) : List String → List String
  | [] => []
  | cause :: rest =>
      s!"{Text.padLeft 4 (toString index)}: {cause}\n" :: causeLines (index + 1) rest

def render (report : Report) : String :=
  let head := s!"Error: {report.message}\n"
  match report.causes with
  | [] => head
  | causes => head ++ "\nCaused by:\n" ++ String.join (causeLines 0 causes)

def critical (report : Report) : String :=
  "\x1b[31;1mCritical error occurred\x1b[0m\n\n" ++ report.render

end Report

def HeapError.report (error : HeapError) : Report := ⟨error.message, []⟩

end EarlyBoot
