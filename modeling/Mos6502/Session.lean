import Mos6502.Assembly
import Mos6502.Listing
import Mos6502.Opcode.Nmos

/-! # Sessions

    A session assembles sources for the NMOS 6502, one after the other, at an
    origin that can be changed between them. Each source is answered with a
    flat report, which holds code or diagnostics, never both. What a session
    remembers is an assembler, which it sets up anew for another origin.
-/

namespace Mos6502

/-- A table of opcodes, and what is asked for besides a source. -/
structure Assembler where
  /-- The table. -/
  table : InstructionSet
  /-- The options. -/
  options : Options

namespace Assembler

/-- The assembler for the NMOS 6502 that nothing else is asked of. -/
def nmos : Assembler := ⟨.nmos, {}⟩

/-- The same assembler with other options. -/
def withOptions (assembler : Assembler) (options : Options) : Assembler :=
  { assembler with options }

/-- Assembles source text. -/
def assemble (assembler : Assembler) (source : String) : Except (List Diagnostic) Program :=
  Mos6502.assemble assembler.table assembler.options source

end Assembler

/-- The answer to one source. -/
structure Report where
  /-- Is there a program? -/
  success : Bool
  /-- The machine code; empty without a program. -/
  machineCode : List UInt8
  /-- The address of the first byte. -/
  start : UInt16
  /-- The address behind the last byte; the first one without a program. -/
  stop : Nat
  /-- The wording of the first diagnostic. -/
  errorMessage : Option String
  /-- The line of the first diagnostic. -/
  errorLine : Option Nat
  /-- The texts of all diagnostics. -/
  diagnostics : List String
  /-- The listing; empty without a program. -/
  listing : String
deriving DecidableEq, Repr

namespace Report

/-- The report of a program. -/
def ofProgram (program : Program) : Report where
  success := true
  machineCode := program.bytes
  start := program.origin
  stop := program.endAddress
  errorMessage := none
  errorLine := none
  diagnostics := []
  listing := program.listing

/-- The report of a source that could not be assembled. -/
def ofDiagnostics (origin : UInt16) (diagnostics : List Diagnostic) : Report where
  success := false
  machineCode := []
  start := origin
  stop := origin.toNat
  errorMessage := diagnostics.head?.map Diagnostic.message
  errorLine := diagnostics.head?.map Diagnostic.line
  diagnostics := diagnostics.map Diagnostic.text
  listing := ""

end Report

/-- What a session is opened with. -/
structure Session where
  /-- The address of the first byte of the first program. -/
  origin : UInt16
deriving DecidableEq, Repr

namespace Session

/-- The assembler that a session begins with. -/
def start (session : Session) : Assembler :=
  Assembler.nmos.withOptions { origin := session.origin }

/-- An assembler for another origin, with the other options that there have
    been. -/
def setOrigin (assembler : Assembler) (origin : UInt16) : Assembler :=
  Assembler.nmos.withOptions { assembler.options with origin }

/-- Assembles a source and reports what came of it. -/
def assemble (assembler : Assembler) (source : String) : Report :=
  match assembler.assemble source with
  | .ok program => .ofProgram program
  | .error diagnostics => .ofDiagnostics assembler.options.origin diagnostics

/-- What a session can be asked to do. -/
inductive Request where
  /-- To tell its origin. -/
  | origin
  /-- To change its origin and tell it back. -/
  | setOrigin (origin : UInt16)
  /-- To assemble a source. -/
  | assemble (source : String)
deriving DecidableEq, Repr

/-- What a session answers. -/
inductive Answer where
  /-- The origin. -/
  | origin (origin : UInt16)
  /-- The report of an assembly. -/
  | report (report : Report)
deriving DecidableEq, Repr

/-- Serves one request. -/
def serve (assembler : Assembler) : Request → Assembler × Answer
  | .origin => (assembler, .origin assembler.options.origin)
  | .setOrigin origin =>
    let assembler := setOrigin assembler origin
    (assembler, .origin assembler.options.origin)
  | .assemble source => (assembler, .report (assemble assembler source))

/-- Serves requests one after the other. -/
def serveAll (assembler : Assembler) : List Request → List Answer
  | [] => []
  | request :: requests =>
    let (assembler, answer) := serve assembler request
    answer :: serveAll assembler requests

/-- What a session answers to requests from its opening on. -/
def answers (session : Session) (requests : List Request) : List Answer :=
  serveAll session.start requests

end Session

end Mos6502
