import Mos6502.Layout
import Mos6502.Program
import Mos6502.Text.Lines

/-! # Assembly

    An assembly reads the lines of a source, lays its statements out, and
    encodes what has been placed. Faults are collected in all three stages
    instead of ending the assembly at the first. There is a program only if
    there is no fault at all; else there are the diagnostics, in the order of
    their lines.
-/

namespace Mos6502

/-- What an assembly is asked for besides the source. -/
structure Options where
  /-- The address of the first byte. -/
  origin : UInt16 := 0
  /-- How many diagnostics to give at most; all of them if there is no
      limit. -/
  maxDiagnostics : Option Nat := none
deriving DecidableEq, Repr

/-- The outcome of an assembly and how it came about. -/
structure Assembly where
  /-- The program, or what is wrong with the source. -/
  outcome : Except (List Diagnostic) Program
  /-- The log. -/
  log : Log

namespace Assembly

/-- Everything that is wrong with a source, in the order in which the stages
    find it. -/
def found (readings : List Reading) (layout : Layout) : List Diagnostic :=
  Reading.diagnostics readings ++ layout.diagnostics ++ layout.encodingDiagnostics

/-- The diagnostics to give: in the order of their lines, those of one line in
    the order in which they were found, and no more than asked for. -/
def report (maxDiagnostics : Option Nat) (found : List Diagnostic) : List Diagnostic :=
  let sorted := found.mergeSort fun a b => a.line ≤ b.line
  match maxDiagnostics with
  | none => sorted
  | some limit => sorted.take limit

/-- Assembles the lines of a source. -/
def run (table : InstructionSet) (options : Options) (lines : List String) : Assembly :=
  let readings := Reading.ofLines lines
  let layout := Layout.ofStatements table options.origin (Reading.statements readings)
  let log := Log.empty.enter .reading |>.enter .placing |>.note layout.events |>.enter .encoding
  let found := found readings layout
  if found.isEmpty then
    let program :=
      Program.ofInstructions options.origin layout.encoded layout.symbols
    { outcome := .ok program
      log := log.enter .done |>.note [.assembled program.bytes.length program.symbols.size] }
  else
    let diagnostics := report options.maxDiagnostics found
    { outcome := .error diagnostics
      log := log.enter .failed |>.note [.rejected diagnostics.length] }

end Assembly

/-- Assembles source lines, which are numbered from one. -/
def assembleLines (table : InstructionSet) (options : Options) (lines : List String) :
    Except (List Diagnostic) Program :=
  (Assembly.run table options lines).outcome

/-- Assembles source text. -/
def assemble (table : InstructionSet) (options : Options) (source : String) :
    Except (List Diagnostic) Program :=
  assembleLines table options (Text.lines source)

end Mos6502
