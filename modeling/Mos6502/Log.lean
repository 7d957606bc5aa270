import Mos6502.Instruction.Basic

/-! # The Log of an Assembly

    An assembly goes through stages and keeps a log of what happens in them.
    The log is a value: a list of events in the order in which they occurred,
    each with a severity and a wording.
-/

namespace Mos6502

/-- The stages of an assembly. The last two are final. -/
inductive Stage where
  /-- Nothing has been done yet. -/
  | start
  /-- Lines are read. -/
  | reading
  /-- Statements get their addresses. -/
  | placing
  /-- Instructions are encoded. -/
  | encoding
  /-- There is a program. -/
  | done
  /-- There are diagnostics instead. -/
  | failed
deriving DecidableEq, Repr

namespace Stage

/-- The name of the stage in the log. -/
def name : Stage → String
  | start => "Start"
  | reading => "Lexing"
  | placing => "Pass1"
  | encoding => "Pass2"
  | done => "Done"
  | failed => "Failed"

/-- Is there no stage behind this one? -/
def isFinal : Stage → Bool
  | done | failed => true
  | start | reading | placing | encoding => false

end Stage

/-- How much an event matters. -/
inductive Severity where
  | debug
  | trace
deriving DecidableEq, Repr

/-- The name of the severity in the log. -/
def Severity.name : Severity → String
  | debug => "DEBUG"
  | trace => "TRACE"

/-- Something that happens during an assembly. -/
inductive Event where
  /-- The assembly goes over from one stage to the next. -/
  | entered (previous next : Stage)
  /-- An instruction gets its address. -/
  | placed (instruction : Placed)
  /-- The assembly ends with a program. -/
  | assembled (bytes symbols : Nat)
  /-- The assembly ends with diagnostics. -/
  | rejected (diagnostics : Nat)
deriving DecidableEq, Repr

namespace Event

/-- Only single instructions are as fine as a trace. -/
def severity : Event → Severity
  | placed _ => .trace
  | entered _ _ | assembled _ _ | rejected _ => .debug

/-- The wording of an event. -/
def message : Event → String
  | entered previous next => s!"assembler: {previous.name} -> {next.name}"
  | placed i =>
    s!"line {i.line}: ${Text.hexWord i.address} {i.mnemonic} ({i.opcode.size} byte(s))"
  | assembled bytes symbols => s!"assembled {bytes} byte(s), {symbols} symbol(s)"
  | rejected diagnostics => s!"assembly failed with {diagnostics} diagnostic(s)"

/-- The wording with the severity in front. -/
def text (event : Event) : String := s!"{event.severity.name} {event.message}"

end Event

/-- The stage that an assembly is in and the events so far. -/
structure Log where
  /-- The stage that was entered last. -/
  stage : Stage
  /-- The events in the order in which they occurred. -/
  events : List Event
deriving DecidableEq, Repr

namespace Log

/-- The log before anything has happened. -/
def empty : Log := ⟨.start, []⟩

/-- Notes events of the current stage. -/
def note (log : Log) (events : List Event) : Log := { log with events := log.events ++ events }

/-- Goes over to another stage. -/
def enter (log : Log) (next : Stage) : Log :=
  ⟨next, log.events ++ [.entered log.stage next]⟩

end Log

end Mos6502
