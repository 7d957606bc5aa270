import Mos6502.Proofs.Concatenation
import Mos6502.Session

/-! # What a Session Answers

    Whatever has been asked of a session, it assembles for the NMOS 6502,
    without a limit on the diagnostics, at the origin that has been set last
    (`Session.IsAt`). Every request keeps that so, and is answered by it alone
    (`Session.isAt_serve`).

    The report of a source is therefore fixed by the source and this origin. It
    tells a program from diagnostics in each of its parts, because a source that
    is refused has at least one diagnostic, and the first one stands on the first
    line that has any.
-/

namespace Mos6502

/-! ### Reports -/

/-- **The report of a program.** -/
structure Report.IsOfProgram (report : Report) (origin : UInt16) (program : Program) : Prop where
  /-- It says that there is a program. -/
  success_eq : report.success = true
  /-- It holds the code, -/
  machineCode_eq : report.machineCode = program.bytes
  /-- which begins at the origin -/
  start_eq : report.start = origin
  /-- and ends as far behind it as it is long, -/
  stop_eq : report.stop = origin.toNat + program.bytes.length
  /-- within the address space. -/
  stop_le : report.stop ≤ 0x10000
  /-- It holds the listing, -/
  listing_eq : report.listing = program.listing
  /-- and nothing about what is wrong. -/
  errorMessage_eq : report.errorMessage = none
  errorLine_eq : report.errorLine = none
  diagnostics_eq : report.diagnostics = []

/-- **The report of diagnostics.** -/
structure Report.IsOfDiagnostics (report : Report) (origin : UInt16)
    (diagnostics : List Diagnostic) : Prop where
  /-- It says that there is no program. -/
  success_eq : report.success = false
  /-- There is no code, which would begin and end at the origin, -/
  machineCode_eq : report.machineCode = []
  start_eq : report.start = origin
  stop_eq : report.stop = origin.toNat
  /-- and no listing. -/
  listing_eq : report.listing = ""
  /-- It names the smallest line that has a diagnostic, and gives the message of
      the first diagnostic on this line. -/
  first : ∃ d ∈ diagnostics, (∀ e ∈ diagnostics, d.line ≤ e.line) ∧
    diagnostics.find? (fun e => e.line = d.line) = some d ∧
    report.errorLine = some d.line ∧ report.errorMessage = some d.message
  /-- It holds the texts of all diagnostics. -/
  diagnostics_eq : report.diagnostics = diagnostics.map Diagnostic.text

namespace Session

/-- The report of a source at an origin. -/
def reportAt (origin : UInt16) (source : String) : Report :=
  match Mos6502.assemble .nmos { origin } source with
  | .ok program => .ofProgram program
  | .error diagnostics => .ofDiagnostics origin diagnostics

variable {origin : UInt16} {source : String}

/-- A source that assembles is reported as its program. -/
theorem isOfProgram_reportAt {program : Program}
    (h : Mos6502.assemble .nmos { origin } source = .ok program) :
    (reportAt origin source).IsOfProgram origin program := by
  obtain ⟨statements, -, hadmissible, himage⟩ := exists_image_of_assembleLines_eq_ok h
  have hreport : reportAt origin source = .ofProgram program := by rw [reportAt, h]
  have hstop : program.endAddress = origin.toNat + program.bytes.length := by
    rw [Program.endAddress, himage.origin_eq]
  have hle : program.endAddress ≤ 0x10000 := by
    rw [himage.endAddress_eq_addressAfter hadmissible]
    exact Statement.sum_room_le hadmissible (Nat.le_of_lt origin.toNat_lt)
  rw [hreport]
  exact
    { success_eq := rfl
      machineCode_eq := rfl
      start_eq := himage.origin_eq
      stop_eq := hstop
      stop_le := hle
      listing_eq := rfl
      errorMessage_eq := rfl
      errorLine_eq := rfl
      diagnostics_eq := rfl }

/-- A source that is refused is reported by its diagnostics, of which there is
    at least one. -/
theorem isOfDiagnostics_reportAt {diagnostics : List Diagnostic}
    (h : Mos6502.assemble .nmos { origin } source = .error diagnostics) :
    (reportAt origin source).IsOfDiagnostics origin diagnostics := by
  obtain ⟨hne, hall⟩ := assembleLines_eq_error_iff.mp h
  have hsorted : diagnostics.Pairwise fun a b => a.line ≤ b.line := by
    rw [hall]
    exact Scan.pairwise_line_diagnostics .nmos (.start origin) 1 (Text.lines source)
  have hreport : reportAt origin source = .ofDiagnostics origin diagnostics := by rw [reportAt, h]
  obtain ⟨d, rest, rfl⟩ : ∃ d rest, diagnostics = d :: rest :=
    List.exists_cons_of_ne_nil (by rwa [hall])
  -- the diagnostics ascend by line, so the first one has the smallest
  have hmin : ∀ e ∈ d :: rest, d.line ≤ e.line :=
    List.forall_mem_cons.mpr ⟨Nat.le_refl _, (List.pairwise_cons.mp hsorted).1⟩
  have hfind : (d :: rest).find? (fun e => e.line = d.line) = some d :=
    List.find?_cons_of_pos (by simp)
  rw [hreport]
  exact
    { success_eq := rfl
      machineCode_eq := rfl
      start_eq := rfl
      stop_eq := rfl
      listing_eq := rfl
      first := ⟨d, List.mem_cons_self, hmin, hfind, rfl, rfl⟩
      diagnostics_eq := rfl }

theorem reportAt_cases (origin : UInt16) (source : String) :
    (∃ program, Mos6502.assemble .nmos { origin } source = .ok program ∧
      (reportAt origin source).IsOfProgram origin program) ∨
    ∃ diagnostics, Mos6502.assemble .nmos { origin } source = .error diagnostics ∧
      (reportAt origin source).IsOfDiagnostics origin diagnostics := by
  cases h : Mos6502.assemble .nmos { origin } source with
  | ok program => exact .inl ⟨program, rfl, isOfProgram_reportAt h⟩
  | error diagnostics => exact .inr ⟨diagnostics, rfl, isOfDiagnostics_reportAt h⟩

/-- There is a program exactly if there is no message. -/
theorem success_reportAt_iff (origin : UInt16) (source : String) :
    (reportAt origin source).success = true ↔ (reportAt origin source).errorMessage = none := by
  rcases reportAt_cases origin source with ⟨program, -, h⟩ | ⟨diagnostics, -, h⟩
  · simp [h.success_eq, h.errorMessage_eq]
  · obtain ⟨d, -, -, -, -, hmessage⟩ := h.first
    simp [h.success_eq, hmessage]

theorem stop_reportAt (origin : UInt16) (source : String) :
    (reportAt origin source).stop =
      (reportAt origin source).start.toNat + (reportAt origin source).machineCode.length := by
  rcases reportAt_cases origin source with ⟨program, -, h⟩ | ⟨diagnostics, -, h⟩
  · rw [h.stop_eq, h.start_eq, h.machineCode_eq]
  · rw [h.stop_eq, h.start_eq, h.machineCode_eq, List.length_nil, Nat.add_zero]

/-! ### Requests -/

/-- The origin that a request sets, if it sets one. -/
def Request.newOrigin? : Request → Option UInt16
  | .setOrigin origin => some origin
  | .origin | .assemble _ => none

/-- The origin that has been set last, or the one that a session has been opened
    with. -/
def lastOrigin (origin : UInt16) (requests : List Request) : UInt16 :=
  (requests.filterMap Request.newOrigin?).getLast?.getD origin

/-- What is answered to a request at an origin. -/
def answerAt (origin : UInt16) : Request → Answer
  | .origin => .origin origin
  | .setOrigin newOrigin => .origin newOrigin
  | .assemble source => .report (reportAt origin source)

@[simp] theorem lastOrigin_nil (origin : UInt16) : lastOrigin origin [] = origin := rfl

theorem lastOrigin_cons (origin : UInt16) (request : Request) (requests : List Request) :
    lastOrigin origin (request :: requests) =
      lastOrigin (request.newOrigin?.getD origin) requests := by
  unfold lastOrigin
  rw [List.filterMap_cons]
  cases request.newOrigin? with
  | none => rfl
  | some newOrigin => rw [List.getLast?_cons]; rfl

theorem lastOrigin_append_assemble (origin : UInt16) (requests : List Request) (source : String) :
    lastOrigin origin (requests ++ [.assemble source]) = lastOrigin origin requests := by
  unfold lastOrigin
  rw [List.filterMap_append]
  show (requests.filterMap Request.newOrigin? ++ []).getLast?.getD origin = _
  rw [List.append_nil]

/-- **The invariant of a session**: it assembles for the NMOS 6502, without a
    limit on the diagnostics, at the given origin. -/
structure IsAt (assembler : Assembler) (origin : UInt16) : Prop where
  table_eq : assembler.table = .nmos
  limit_eq : assembler.options.maxDiagnostics = none
  origin_eq : assembler.options.origin = origin

/-- It holds when a session is opened. -/
theorem isAt_start (session : Session) : IsAt session.start session.origin where
  table_eq := rfl
  limit_eq := rfl
  origin_eq := rfl

variable {assembler : Assembler}

/-- It fixes what is reported of a source. -/
theorem IsAt.assemble_eq (h : IsAt assembler origin) (source : String) :
    assemble assembler source = reportAt origin source := by
  have hoptions : assembler.options = { origin } := by
    rw [← h.origin_eq, ← h.limit_eq]
  have houtcome : assembler.assemble source = Mos6502.assemble .nmos { origin } source := by
    rw [Assembler.assemble, h.table_eq, hoptions]
  unfold assemble reportAt
  rw [houtcome]
  cases Mos6502.assemble .nmos { origin } source with
  | ok program => rfl
  | error diagnostics => exact congrArg (Report.ofDiagnostics · diagnostics) h.origin_eq

/-- It is kept by every request, and so is the origin unless the request sets
    another one. The answer depends on the origin and the request alone. -/
theorem isAt_serve (h : IsAt assembler origin) (request : Request) :
    IsAt (serve assembler request).1 (request.newOrigin?.getD origin) ∧
      (serve assembler request).2 = answerAt origin request := by
  cases request with
  | origin =>
    refine ⟨h, ?_⟩
    show Answer.origin assembler.options.origin = _
    rw [h.origin_eq]
    rfl
  | setOrigin newOrigin =>
    -- the new assembler has a table and a limit of its own
    refine ⟨⟨rfl, ?_, rfl⟩, rfl⟩
    exact h.limit_eq
  | assemble source =>
    refine ⟨h, ?_⟩
    show Answer.report (assemble assembler source) = _
    rw [h.assemble_eq]
    rfl

/-- So requests are answered at the origin that the requests before them have
    set last. -/
theorem getElem?_serveAll (h : IsAt assembler origin) (front : List Request) (request : Request)
    (back : List Request) :
    (serveAll assembler (front ++ request :: back))[front.length]? =
      some (answerAt (lastOrigin origin front) request) := by
  induction front generalizing assembler origin with
  | nil =>
    obtain ⟨-, hanswer⟩ := isAt_serve h request
    show some (serve assembler request).2 = _
    rw [hanswer, lastOrigin_nil]
  | cons first front ih =>
    obtain ⟨hnext, -⟩ := isAt_serve h first
    rw [lastOrigin_cons]
    exact ih hnext

/-- **The answers of a session.** Each request is answered by what it is and by
    the origin that has been set last, whatever has been assembled before. A
    source that assembles there is reported as its program, which ends within the
    address space; any other one by its first diagnostic, without any code. -/
theorem answers_at_lastOrigin (origin : UInt16) (front : List Request) (request : Request)
    (back : List Request) :
    ((⟨origin⟩ : Session).answers (front ++ request :: back))[front.length]? =
      some (answerAt (lastOrigin origin front) request) ∧
    (∀ source, lastOrigin origin (front ++ [.assemble source]) = lastOrigin origin front) ∧
    ∀ (o : UInt16) (source : String),
      (∀ program, Mos6502.assemble .nmos { origin := o } source = .ok program →
        (reportAt o source).IsOfProgram o program) ∧
      (∀ diagnostics, Mos6502.assemble .nmos { origin := o } source = .error diagnostics →
        (reportAt o source).IsOfDiagnostics o diagnostics) ∧
      ((reportAt o source).success = true ↔ (reportAt o source).errorMessage = none) ∧
      (reportAt o source).stop =
        (reportAt o source).start.toNat + (reportAt o source).machineCode.length := by
  refine ⟨getElem?_serveAll (isAt_start ⟨origin⟩) front request back, ?_, ?_⟩
  · intro source
    exact lastOrigin_append_assemble origin front source
  · intro o source
    exact ⟨fun program => isOfProgram_reportAt, fun diagnostics => isOfDiagnostics_reportAt,
      success_reportAt_iff o source, stop_reportAt o source⟩

/-- A source that assembles at the origin that has been set, and behind it one
    that does not. -/
theorem answers_at_lastOrigin_two_sources :
    ∃ code fault,
      ((⟨0⟩ : Session).answers [.setOrigin 0x0600, .assemble "loop: DEX", .assemble "LDX"])[1]? =
        some (.report code) ∧
      code.success = true ∧ code.start = 0x0600 ∧ code.machineCode = [0xCA] ∧
      ((⟨0⟩ : Session).answers [.setOrigin 0x0600, .assemble "loop: DEX", .assemble "LDX"])[2]? =
        some (.report fault) ∧
      fault.success = false ∧ fault.start = 0x0600 ∧ fault.errorLine = some 1 := by
  obtain ⟨hcode, -, hreports⟩ := answers_at_lastOrigin 0 [.setOrigin 0x0600]
    (.assemble "loop: DEX") [.assemble "LDX"]
  obtain ⟨hfault, -, -⟩ := answers_at_lastOrigin 0 [.setOrigin 0x0600, .assemble "loop: DEX"]
    (.assemble "LDX") []
  obtain ⟨program, hprogram, hbytes⟩ := @exists_program_of_ofLines_eq_nil .nmos
    { origin := 0x0600 } (Text.lines "loop: DEX") (by decide +kernel)
  have hscan : Scan.ofLines .nmos 0x0600 (Text.lines "LDX") =
      [⟨1, 0, .lookup (.unsupportedMode "LDX" .implicit)⟩] := by decide +kernel
  have hrefused := @assembleLines_eq_error_ofLines .nmos { origin := 0x0600 } (Text.lines "LDX") rfl
    (by rw [hscan]; exact List.cons_ne_nil _ _)
  rw [hscan] at hrefused
  have hof := (hreports 0x0600 "loop: DEX").1 program hprogram
  have hof' := (hreports 0x0600 "LDX").2.1 _ hrefused
  obtain ⟨d, hd, -, -, hline, -⟩ := hof'.first
  rw [List.mem_singleton.mp hd] at hline
  have hmachineCode : (reportAt 0x0600 "loop: DEX").machineCode = [0xCA] := by
    rw [hof.machineCode_eq, hbytes]
    decide +kernel
  exact ⟨reportAt 0x0600 "loop: DEX", reportAt 0x0600 "LDX", hcode, hof.success_eq, hof.start_eq,
    hmachineCode, hfault, hof'.success_eq, hof'.start_eq, hline⟩

end Session

end Mos6502
