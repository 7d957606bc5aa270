import Mos6502.Opcode.Nmos
import Mos6502.Proofs.Comments
import Mos6502.Proofs.Renumbering

/-! # Lines that Do Nothing

    A line without a label and an instruction can be inserted anywhere. The
    lines of the source behind it get other numbers (`MixedLine.number`), and
    nothing else happens: a scan passes over the inserted line
    (`Scan.diagnostics_of_interleaved`), and the substance of the source stays
    what it is (`Reading.substance_of_interleaved`). So the outcome of the
    assembly is the renumbered one (`read_commented_assembleLines_mixed`).
-/

namespace Mos6502

open Text

/-- A line that is read as neither a label nor an instruction. -/
def IsIdleLine (text : String) : Prop := ∃ n s, Statement.read n text = .ok s ∧ s.isIdle

/-- A line of a source into which lines have been inserted. -/
inductive MixedLine where
  /-- A line of the source. -/
  | own (text : String)
  /-- A line that has been inserted. -/
  | inserted (text : String)
deriving DecidableEq, Repr

namespace MixedLine

/-- The text of the line. -/
def text : MixedLine → String
  | own text => text
  | inserted text => text

/-- The text of a line of the source. -/
def own? : MixedLine → Option String
  | own text => some text
  | inserted _ => none

/-- Where, counted from zero, a line of the source stands among all lines. -/
def index : List MixedLine → Nat → Nat
  | [], i => i
  | inserted _ :: lines, i => index lines i + 1
  | own _ :: _, 0 => 0
  | own _ :: lines, i + 1 => index lines i + 1

/-- The number that a line of the source has among all lines. -/
def number (lines : List MixedLine) : Nat → Nat
  | 0 => 0
  | n + 1 => index lines n + 1

variable {lines : List MixedLine}

theorem getElem?_index (lines : List MixedLine) (i : Nat) :
    (lines.map text)[index lines i]? = (lines.filterMap own?)[i]? := by
  induction lines generalizing i with
  | nil => rfl
  | cons line lines ih =>
    cases line with
    | inserted text => exact ih i
    | own text =>
      cases i with
      | zero => rfl
      | succ i => exact ih i

theorem index_lt_index_succ (lines : List MixedLine) (i : Nat) :
    index lines i < index lines (i + 1) := by
  induction lines generalizing i with
  | nil => exact Nat.lt_succ_self i
  | cons line lines ih =>
    cases line with
    | inserted text => exact Nat.succ_lt_succ (ih i)
    | own text =>
      cases i with
      | zero => exact Nat.succ_pos _
      | succ i => exact Nat.succ_lt_succ (ih i)

theorem strictMono_number (lines : List MixedLine) : StrictMono (number lines) := by
  refine strictMono_nat_of_lt_succ fun n => ?_
  cases n with
  | zero => exact Nat.succ_pos _
  | succ n => exact Nat.succ_lt_succ (index_lt_index_succ lines n)

end MixedLine

/-! ### Statements that do nothing -/

namespace Statement

variable {table : InstructionSet} {s : Statement}

/-- Idle statements take up no room and define nothing. -/
theorem room_symbolAt_encodedAt_of_isIdle (h : s.isIdle) (address : Nat) :
    s.room table = 0 ∧ symbolAt address s = none ∧ encodedAt table address s = none := by
  obtain ⟨hlabel, hinstruction⟩ := Bool.and_eq_true_iff.mp h
  simp [room, symbolAt, encodedAt, Option.isNone_iff_eq_none.mp hlabel,
    Option.isNone_iff_eq_none.mp hinstruction]

/-- **Only the substance is encoded**: it defines all the symbols and all the
    instructions. -/
theorem symbolsFrom_instructionsFrom_substance (address : Nat) (statements : List Statement) :
    symbolsFrom table address (substance statements) = symbolsFrom table address statements ∧
      instructionsFrom table address (substance statements) =
        instructionsFrom table address statements := by
  induction statements generalizing address with
  | nil => exact ⟨rfl, rfl⟩
  | cons s rest ih =>
    rw [symbolsFrom_cons, instructionsFrom_cons, ← List.singleton_append, substance_append]
    by_cases h : s.isIdle
    · obtain ⟨hroom, hsymbol, hencoded⟩ := @room_symbolAt_encodedAt_of_isIdle table s h address
      rw [substance_singleton_of_isIdle h, hroom, hsymbol, hencoded]
      exact ih address
    · obtain ⟨hsymbols, hinstructions⟩ := ih (address + s.room table)
      have hone : substance [s] = [s.withoutComment] := by simp [substance, h]
      rw [hone, List.singleton_append, symbolsFrom_cons, instructionsFrom_cons]
      -- the comment takes up no room
      show _ ++ symbolsFrom table (address + s.room table) _ = _ ∧
        _ ++ instructionsFrom table (address + s.room table) _ = _
      rw [hsymbols, hinstructions]
      exact ⟨rfl, rfl⟩

end Statement

theorem Program.IsImage.of_substance_eq {table : InstructionSet} {origin : UInt16}
    {statements others : List Statement} {program : Program}
    (h : program.IsImage table origin statements)
    (hsame : Statement.substance statements = Statement.substance others) :
    program.IsImage table origin others := by
  obtain ⟨hsymbols, hinstructions⟩ :=
    @Statement.symbolsFrom_instructionsFrom_substance table origin.toNat statements
  obtain ⟨hsymbols', hinstructions'⟩ :=
    @Statement.symbolsFrom_instructionsFrom_substance table origin.toNat others
  refine ⟨h.origin_eq, ?_, ?_, h.bytes_eq, h.lineTable_eq⟩
  · rw [h.instructions_eq, ← hinstructions, hsame, hinstructions']
  · rw [h.symbols_eq, ← hsymbols, hsame, hsymbols']

/-! ### Reading the lines -/

/-- The first lines are the second ones, numbered in another way, with lines in
    between that do nothing. -/
inductive Reading.Interleaved (number : Nat → Nat) : List Reading → List Reading → Prop
  | nil : Interleaved number [] []
  | idle {s : Statement} {whole source : List Reading} (hidle : s.isIdle)
      (hrest : Interleaved number whole source) :
      Interleaved number (⟨some s, none⟩ :: whole) source
  | own {whole source : List Reading} (reading : Reading)
      (hrest : Interleaved number whole source) :
      Interleaved number (reading.renumber number :: whole) (reading :: source)

/-- An idle line does nothing under any number. -/
theorem IsIdleLine.ofLine_eq {text : String} (h : IsIdleLine text) (n : Nat) :
    ∃ s : Statement, s.isIdle ∧ Reading.ofLine n text = ⟨some s, none⟩ := by
  obtain ⟨k, s, hread, hidle⟩ := h
  have hread' := Statement.read_renumber hread n
  exact ⟨{ s with line := n }, hidle, by rw [Reading.ofLine, hread']⟩

/-- Lines between which idle lines stand are read one by one. -/
theorem MixedLine.interleaved {lines : List MixedLine} {number : Nat → Nat}
    (hidle : ∀ text, inserted text ∈ lines → IsIdleLine text) {first first' : Nat}
    (hnumber : ∀ i, number (first + i) = first' + index lines i) :
    Reading.Interleaved number (Reading.ofLinesFrom first' (lines.map text))
      (Reading.ofLinesFrom first (lines.filterMap own?)) := by
  induction lines generalizing first first' with
  | nil => exact .nil
  | cons line lines ih =>
    have hidle' : ∀ text, inserted text ∈ lines → IsIdleLine text :=
      fun text hmem => hidle text (List.mem_cons_of_mem line hmem)
    cases line with
    | inserted text =>
      obtain ⟨s, hs, hline⟩ := (hidle text List.mem_cons_self).ofLine_eq first'
      rw [List.map_cons, Reading.ofLinesFrom_cons, MixedLine.text, hline]
      refine .idle hs (ih hidle' fun i => ?_)
      rw [hnumber, index]
      omega
    | own text =>
      have hfirst : number first = first' := hnumber 0
      rw [List.map_cons, Reading.ofLinesFrom_cons, MixedLine.text, ← hfirst,
        Reading.ofLine_renumber, hfirst]
      refine .own _ (ih hidle' fun i => ?_)
      rw [Nat.add_right_comm, Nat.add_assoc, hnumber, index]
      omega

namespace Reading

variable {number : Nat → Nat} {whole source : List Reading}

theorem substance_of_interleaved (h : Interleaved number whole source) :
    Statement.substance (statements whole) =
      Statement.substance ((statements source).map (Statement.renumber number)) := by
  induction h with
  | nil => rfl
  | idle hidle hrest ih =>
    rw [statements_cons, Statement.substance_append, ih, Option.toList_some,
      Statement.substance_singleton_of_isIdle hidle, List.nil_append]
  | own reading hrest ih =>
    rw [statements_cons, statements_cons, List.map_append, Statement.substance_append,
      Statement.substance_append, ih, Reading.renumber, Option.toList_map]

end Reading

namespace Scan

variable {table : InstructionSet} {number : Nat → Nat} {whole source : List Reading}

/-- A scan passes over an idle line. -/
theorem atReading_of_isIdle (scan : Scan) {s : Statement} (h : s.isIdle) :
    scan.atReading table ⟨some s, none⟩ = (scan, []) := by
  obtain ⟨hlabel, hinstruction⟩ := Bool.and_eq_true_iff.mp h
  simp [atReading, atStatement, afterLabel, afterInstruction, Option.isNone_iff_eq_none.mp hlabel,
    Option.isNone_iff_eq_none.mp hinstruction]

/-- **Idle lines are not noticed**: what is found around them is found as it is
    without them, on renumbered lines. -/
theorem diagnostics_of_interleaved (h : Reading.Interleaved number whole source) (scan : Scan) :
    diagnostics table (scan.renumber number) whole =
      (diagnostics table scan source).map (Diagnostic.renumber number) := by
  induction h generalizing scan with
  | nil => rfl
  | idle hidle hrest ih => rw [diagnostics, atReading_of_isIdle _ hidle, List.nil_append, ih]
  | own reading hrest ih =>
    rw [diagnostics, atReading_renumber, ih, diagnostics, List.map_append]

end Scan

/-! ### The outcome -/

/-- **Idle lines change nothing but the numbers of the lines.** The outcome is
    that of the source by itself, renumbered. -/
theorem MixedLine.assembleLines_map_text (table : InstructionSet) (options : Options)
    {lines : List MixedLine} (hidle : ∀ text, inserted text ∈ lines → IsIdleLine text) :
    assembleLines table options (lines.map text) =
      ((assembleLines table options (lines.filterMap own?)).map
        (Program.renumber (number lines))).mapError
          (List.map (Diagnostic.renumber (number lines))) := by
  have hinterleaved : Reading.Interleaved (number lines) (Reading.ofLines (lines.map text))
      (Reading.ofLines (lines.filterMap own?)) := by
    refine MixedLine.interleaved hidle fun i => ?_
    rw [Nat.add_comm 1 i, Nat.add_comm 1 (index lines i), number]
  have hscan : Scan.ofLines table options.origin (lines.map text) =
      (Scan.ofLines table options.origin (lines.filterMap own?)).map
        (Diagnostic.renumber (number lines)) :=
    Scan.diagnostics_of_interleaved hinterleaved (.start options.origin)
  cases hsource : assembleLines table options (lines.filterMap own?) with
  | ok program =>
    obtain ⟨statements, hread, hadmissible, himage⟩ := exists_image_of_assembleLines_eq_ok hsource
    rw [(Scan.ofLines_eq_nil_iff ..).mpr ⟨statements, hread, hadmissible⟩, List.map_nil,
      Scan.ofLines_eq_nil_iff] at hscan
    obtain ⟨others, hothers, hadmissible'⟩ := hscan
    obtain ⟨whole, hwhole, himage'⟩ := exists_program_of_admissible options hothers hadmissible'
    -- both programs are images of statements with the same substance
    have hsame := Reading.substance_of_interleaved hinterleaved
    rw [Reading.ofLines_eq, Reading.ofLines_eq, hothers.readings.1, hread.readings.1] at hsame
    have hrenumbered := himage.isImage_renumber (strictMono_number lines)
    rw [hwhole, (himage'.of_substance_eq hsame).unique hrenumbered]
    rfl
  | error diagnostics =>
    obtain ⟨hne, hreport⟩ := assembleLines_eq_error_iff.mp hsource
    refine assembleLines_eq_error_iff.mpr ⟨?_, ?_⟩
    · rw [hscan]
      simpa using hne
    · rw [hscan, hreport]
      -- a limit cuts both off at the same place
      cases options.maxDiagnostics with
      | none => rfl
      | some limit => exact List.map_take

/-- **Comments, blanks and idle lines.** A line without a comment that is put
    between blanks and given one is the same statement, as far to the right as
    the blanks in front are wide, or it is refused there for a fault of the same
    kind. And idle lines may be inserted anywhere into a source: the program, or
    what is wrong, stays the same, on lines that are numbered in their order. -/
theorem read_commented_assembleLines_mixed :
    (∀ (n : Nat) (before text after comment : String), ';' ∉ text.toList →
      IsBlanks before.toList → IsBlanks after.toList →
      (∀ s, Statement.read n text = .ok s →
        Statement.read n (before ++ text ++ after ++ ";" ++ comment) =
          .ok { s.moveBy (utf8Width before.toList) with comment := some comment }) ∧
      ∀ d, Statement.read n text = .error d →
        ∃ e, Statement.read n (before ++ text ++ after ++ ";" ++ comment) = .error e ∧
          e.kind = d.kind ∧ e.line = d.line ∧ e.column = d.column + utf8Width before.toList ∧
          d.fault.WithComment e.fault) ∧
    ∀ (table : InstructionSet) (options : Options) (lines : List MixedLine),
      (∀ text, .inserted text ∈ lines → IsIdleLine text) →
      StrictMono (MixedLine.number lines) ∧
      (∀ i, (lines.map MixedLine.text)[MixedLine.index lines i]? =
        (lines.filterMap MixedLine.own?)[i]?) ∧
      assembleLines table options (lines.map MixedLine.text) =
        ((assembleLines table options (lines.filterMap MixedLine.own?)).map
          (Program.renumber (MixedLine.number lines))).mapError
            (List.map (Diagnostic.renumber (MixedLine.number lines))) ∧
      ∀ program, assembleLines table options (lines.filterMap MixedLine.own?) = .ok program →
        ∃ whole, assembleLines table options (lines.map MixedLine.text) = .ok whole ∧
          Program.Renumbered (MixedLine.number lines) program whole := by
  refine ⟨?_, ?_⟩
  · intro n before text after comment hsemicolon hbefore hafter
    exact Statement.read_commented hsemicolon hbefore hafter n comment
  · intro table options lines hidle
    have houtcome := MixedLine.assembleLines_map_text table options hidle
    have hnumber := MixedLine.strictMono_number lines
    refine ⟨hnumber, MixedLine.getElem?_index lines, houtcome, ?_⟩
    intro program hprogram
    refine ⟨program.renumber (MixedLine.number lines), ?_, program.renumbered_renumber hnumber⟩
    rw [houtcome, hprogram]
    rfl

/-- A line behind a blank of two bytes, and a loop with idle lines in it. -/
theorem read_commented_assembleLines_mixed_loop :
    Statement.read 3 "x: DEX" = .ok ⟨3, some "x", some ⟨"DEX", .implicit, 3⟩, none⟩ ∧
    Statement.read 3 "\u00a0x: DEX ; count" =
      .ok ⟨3, some "x", some ⟨"DEX", .implicit, 5⟩, some " count"⟩ ∧
    ∃ program,
      assembleLines .nmos { origin := 0x0600 } ["loop: DEX", "BNE *-3"] = .ok program ∧
      assembleLines .nmos { origin := 0x0600 } ["; a loop", "loop: DEX", " ", "BNE *-3"] =
        .ok (program.renumber (MixedLine.number
          [.inserted "; a loop", .own "loop: DEX", .inserted " ", .own "BNE *-3"])) := by
  have hread : Statement.read 3 "x: DEX" =
      .ok ⟨3, some "x", some ⟨"DEX", .implicit, 3⟩, none⟩ := by decide +kernel
  have hblank : IsBlanks "\u00a0".toList := by simp [IsBlanks]; decide
  have hspace : IsBlanks " ".toList := by simp [IsBlanks]; decide
  obtain ⟨hcommented, -⟩ := read_commented_assembleLines_mixed.1 3 "\u00a0" "x: DEX" " " " count"
    (by decide +kernel) hblank hspace
  obtain ⟨program, hprogram, -⟩ := @exists_program_of_ofLines_eq_nil .nmos { origin := 0x0600 }
    ["loop: DEX", "BNE *-3"] (by decide +kernel)
  have hidle : ∀ text, MixedLine.inserted text ∈ [.inserted "; a loop", .own "loop: DEX",
      .inserted " ", .own "BNE *-3"] → IsIdleLine text := by
    intro text hmem
    simp only [List.mem_cons, MixedLine.inserted.injEq, reduceCtorEq, List.not_mem_nil, or_false,
      false_or] at hmem
    rcases hmem with rfl | rfl
    · exact ⟨1, ⟨1, none, none, some " a loop"⟩, by decide +kernel, rfl⟩
    · exact ⟨1, ⟨1, none, none, none⟩, by decide +kernel, rfl⟩
  obtain ⟨-, -, hmixed, -⟩ := read_commented_assembleLines_mixed.2 .nmos { origin := 0x0600 } _ hidle
  refine ⟨hread, hcommented _ hread, program, hprogram, hmixed.trans ?_⟩
  show ((assembleLines .nmos { origin := 0x0600 } ["loop: DEX", "BNE *-3"]).map _).mapError _ = _
  rw [hprogram]
  rfl

end Mos6502
