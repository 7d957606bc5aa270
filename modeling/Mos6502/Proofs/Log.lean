import Mos6502.Proofs.Acceptance
import Mos6502.Proofs.AddressSpace
import Mos6502.Proofs.Contiguity
import Mos6502.Proofs.Recovery

/-! # What an Assembly Logs

    A log can be read in two ways. Its transitions drive a machine of stages
    (`Stage.replay`), which stops at a transition that does not leave the stage
    it is in, or that leaves a final one. A log is sound if the machine gets to
    its end (`Log.Sound`), and both ways to add to a log keep it sound.

    The placed instructions of a log are its trace (`Log.trace`). The layout
    logs what it places and nothing else (`events_ofState`), so the trace is
    known from the statements (`traceOf`): the accepted instructions in front of
    the first that does not fit, at their exact addresses. If there is a
    program, everything placed has been encoded with the size that the trace
    gives (`map_ofEncoded_encoded`), and the trace shows the program.

    `logged_run` is both of it for every run: the one order of events, in which
    no final stage is left, and a trace that mirrors the result.
-/

namespace Mos6502

/-! ### The machine of stages -/

/-- Does the assembly go over to another stage? -/
def Event.isTransition : Event → Bool
  | entered _ _ => true
  | placed _ | assembled _ _ | rejected _ => false

namespace Stage

/-- The stage behind an event. A transition has to leave the stage that the
    assembly is in, and this must not be final. -/
def after? (stage : Stage) : Event → Option Stage
  | .entered previous next =>
    if previous = stage ∧ stage.isFinal = false then some next else none
  | .placed _ | .assembled _ _ | .rejected _ => some stage

/-- The stage behind some events, if none of them stops the machine. -/
def replay (stage : Stage) : List Event → Option Stage
  | [] => some stage
  | event :: events => (stage.after? event).bind fun next => replay next events

variable {stage : Stage}

/-- A transition is taken from its own stage only, and not from a final one. -/
theorem after?_entered_eq_some_iff {previous next last : Stage} :
    stage.after? (.entered previous next) = some last ↔
      previous = stage ∧ stage.isFinal = false ∧ next = last := by
  simp [after?, and_assoc]

theorem after?_of_not_isTransition {event : Event} (h : event.isTransition = false) :
    stage.after? event = some stage := by
  cases event with
  | entered previous next => simp [Event.isTransition] at h
  | placed _ => rfl
  | assembled _ _ => rfl
  | rejected _ => rfl

theorem replay_append (stage : Stage) (front back : List Event) :
    stage.replay (front ++ back) = (stage.replay front).bind fun middle => middle.replay back := by
  induction front generalizing stage with
  | nil => rfl
  | cons event front ih =>
    rw [List.cons_append, replay, replay]
    cases stage.after? event with
    | none => rfl
    | some next => exact ih next

theorem replay_of_not_isTransition {events : List Event}
    (h : ∀ event ∈ events, event.isTransition = false) : stage.replay events = some stage := by
  induction events with
  | nil => rfl
  | cons event events ih =>
    rw [replay, after?_of_not_isTransition (h event List.mem_cons_self)]
    exact ih fun other hother => h other (List.mem_cons_of_mem event hother)

end Stage

namespace Log

variable {log : Log}

/-- A log is sound if its events lead from the start to its stage. -/
def Sound (log : Log) : Prop := Stage.start.replay log.events = some log.stage

theorem sound_empty : empty.Sound := rfl

/-- Notes keep a log sound, -/
theorem Sound.note (h : log.Sound) {events : List Event}
    (hnotes : ∀ event ∈ events, event.isTransition = false) : (log.note events).Sound := by
  show Stage.start.replay (log.events ++ events) = some log.stage
  rw [Stage.replay_append, h]
  exact Stage.replay_of_not_isTransition hnotes

/-- and so does going over to another stage, as long as this one is not final. -/
theorem Sound.enter (h : log.Sound) (hopen : log.stage.isFinal = false) (next : Stage) :
    (log.enter next).Sound := by
  show Stage.start.replay (log.events ++ [.entered log.stage next]) = some next
  rw [Stage.replay_append, h]
  show (log.stage.after? (.entered log.stage next)).bind some = some next
  rw [Stage.after?_entered_eq_some_iff.mpr ⟨rfl, hopen, rfl⟩]
  rfl

/-- **No final stage is left**: every transition of a sound log leaves the stage
    that the events before it lead to, and this is not final. -/
theorem Sound.not_isFinal (h : log.Sound) {front back : List Event} {previous next : Stage}
    (hevents : log.events = front ++ .entered previous next :: back) :
    Stage.start.replay front = some previous ∧ previous.isFinal = false := by
  unfold Sound at h
  rw [hevents, Stage.replay_append] at h
  cases hfront : Stage.start.replay front with
  | none => simp [hfront] at h
  | some middle =>
    -- the machine has not stopped at the transition
    obtain ⟨last, hlast, -⟩ := Option.bind_eq_some_iff.mp (by simpa [hfront, Stage.replay] using h)
    obtain ⟨hprevious, hopen, -⟩ := Stage.after?_entered_eq_some_iff.mp hlast
    rw [hprevious]
    exact ⟨rfl, hopen⟩

end Log

/-! ### Traces -/

/-- What a trace says of an instruction. -/
structure TraceEntry where
  /-- Number of the source line. -/
  line : Nat
  /-- Address of the opcode byte. -/
  address : Nat
  /-- The name of the operation. -/
  mnemonic : String
  /-- The number of bytes. -/
  size : Nat
deriving DecidableEq, Repr

namespace TraceEntry

/-- The entry of an instruction that has been placed. -/
def ofPlaced (p : Placed) : TraceEntry := ⟨p.line, p.address.toNat, p.mnemonic, p.opcode.size⟩

/-- The entry of an instruction of a program. -/
def ofEncoded (e : Encoded) : TraceEntry := ⟨e.line, e.address.toNat, e.mnemonic, e.size⟩

/-- The entry of an accepted instruction at an address. -/
def ofAccepted (address : Nat) (a : Accepted) : TraceEntry :=
  ⟨a.line, address, a.instruction.mnemonic, a.size⟩

/-- The wording of an entry. -/
def message (entry : TraceEntry) : String :=
  let address := Text.hexWord (.ofNat entry.address)
  s!"line {entry.line}: ${address} {entry.mnemonic} ({entry.size} byte(s))"

theorem message_ofPlaced (p : Placed) : (ofPlaced p).message = (Event.placed p).message := by
  unfold message ofPlaced Event.message
  rw [UInt16.ofNat_toNat]

/-- **Encoding keeps the entry**: the field is as wide as the opcode says. -/
theorem ofEncoded_of_encode {p : Placed} {e : Encoded} (h : p.encode = .ok e) :
    ofEncoded e = ofPlaced p := by
  unfold Placed.encode at h
  cases hfield : p.operand.encode p.opcode.fieldWidth with
  | error fault => simp [hfield, Except.map] at h
  | ok field =>
    obtain ⟨hnarrow, -, rfl⟩ := Operand.encode_eq_ok_iff.mp hfield
    rw [hfield] at h
    rw [← Except.ok.inj h]
    simp only [ofEncoded, ofPlaced, Encoded.size, Opcode.size, List.length_append,
      Operand.length_payload, List.length_replicate, Nat.add_sub_cancel' hnarrow]

end TraceEntry

/-- The entry of an event, if it is a placed instruction. -/
def Event.traced? : Event → Option TraceEntry
  | placed instruction => some (.ofPlaced instruction)
  | entered _ _ | assembled _ _ | rejected _ => none

/-- The trace of a log. -/
def Log.trace (log : Log) : List TraceEntry := log.events.filterMap Event.traced?

/-- The trace that statements leave from an address on: their accepted
    instructions in front of the first that does not fit. -/
def traceOf (table : InstructionSet) (address : Nat) (statements : List Statement) :
    List TraceEntry :=
  ((Statement.located table address statements).takeWhile fun (address, a) => a.fits address).map
    fun (address, a) => .ofAccepted address a

namespace Statement

variable {table : InstructionSet}

theorem pairwise_line_accepted {statements : List Statement}
    (h : statements.Pairwise fun s t => s.line < t.line) :
    (accepted table statements).Pairwise fun a b => a.line < b.line := by
  apply h.filterMap
  intro s t hlt a ha b hb
  obtain ⟨-, -, haline⟩ := accepted?_eq_some_iff.mp ha
  obtain ⟨-, -, hbline⟩ := accepted?_eq_some_iff.mp hb
  omega

theorem map_snd_located (table : InstructionSet) (address : Nat) (statements : List Statement) :
    (located table address statements).map Prod.snd = accepted table statements := by
  apply List.ext_getElem
  · simp [located]
  · intro i _ _
    simp [located]

theorem pairwise_line_traceOf {address : Nat} {statements : List Statement}
    (h : statements.Pairwise fun s t => s.line < t.line) :
    (traceOf table address statements).Pairwise fun a b => a.line < b.line := by
  have hlocated : (located table address statements).Pairwise fun p q => p.2.line < q.2.line := by
    rw [← List.pairwise_map (f := Prod.snd) (R := fun a b : Accepted => a.line < b.line),
      map_snd_located]
    exact pairwise_line_accepted h
  exact List.pairwise_map.mpr (hlocated.sublist (List.takeWhile_sublist _))

end Statement

namespace Layout

variable {table : InstructionSet} {state : State}

/-- **Step**: laying out a statement logs the instruction that it places, and
    nothing else. -/
theorem events_place (table : InstructionSet) (state : State) (s : Statement) :
    (state.place table s).2.events = (state.place table s).2.placed.toList.map .placed := by
  rw [place_eq]
  unfold State.afterInstruction
  cases s.instruction with
  | none => rfl
  | some instruction =>
    rcases placeInstruction_cases table (state.afterLabel s).1 s.line instruction with
      ⟨fault, -, h⟩ | ⟨opcode, placed, -, -, -, h⟩ | ⟨opcode, -, -, -, h⟩ | ⟨opcode, -, -, -, h⟩ <;>
      simp only [h, Option.toList_some, Option.toList_none, List.map_cons, List.map_nil]

/-- **Run**: a layout logs the instructions that it places, in order. -/
theorem events_ofState (table : InstructionSet) (state : State) (statements : List Statement) :
    (ofState table state statements).events =
      (ofState table state statements).placed.map .placed := by
  induction statements generalizing state with
  | nil => rfl
  | cons s rest ih =>
    have hstep : (ofState table state (s :: rest)).events =
        (state.place table s).2.events ++
          (ofState table (state.place table s).1 rest).events := rfl
    rw [hstep, events_place, ih, placed_ofState_cons, List.map_append]

theorem map_ofPlaced_placed (table : InstructionSet) (state : State) (statements : List Statement) :
    (ofState table state statements).placed.map TraceEntry.ofPlaced =
      traceOf table state.address statements := by
  rw [traceOf, ← placed_ofState, List.map_map]
  rfl

/-- If everything placed can be encoded, the encoded instructions have the
    entries of the placed ones. -/
theorem map_ofEncoded_encoded {layout : Layout} (h : layout.encodingDiagnostics = []) :
    layout.encoded.map TraceEntry.ofEncoded = layout.placed.map TraceEntry.ofPlaced := by
  rw [Placed.encodingDiagnostics_eq] at h
  unfold encoded
  generalize layout.placed = placed at h ⊢
  induction placed with
  | nil => rfl
  | cons p placed ih =>
    rw [List.filterMap_cons] at h ⊢
    cases hp : p.encode with
    | error fault => simp [Placed.diagnostic?, hp] at h
    | ok e =>
      have hrest : placed.filterMap Placed.diagnostic? = [] := by
        simpa only [Placed.diagnostic?, hp] using h
      show TraceEntry.ofEncoded e :: _ = TraceEntry.ofPlaced p :: _
      rw [TraceEntry.ofEncoded_of_encode hp, ih hrest]

end Layout

/-! ### The log of a run -/

namespace Assembly

/-- The final stage of an assembly. -/
def finalStage : Except (List Diagnostic) Program → Stage
  | .ok _ => .done
  | .error _ => .failed

/-- The last event: the size of the program, or the number of the diagnostics
    that are given. -/
def summary : Except (List Diagnostic) Program → Event
  | .ok program => .assembled program.bytes.length program.symbols.symbols.length
  | .error diagnostics => .rejected diagnostics.length

/-- The events of a run: two transitions, the instructions that are placed, two
    more transitions, and the summary. -/
def eventsOf (placed : List Placed) (outcome : Except (List Diagnostic) Program) : List Event :=
  [.entered .start .reading, .entered .reading .placing] ++ placed.map .placed ++
    [.entered .placing .encoding, .entered .encoding (finalStage outcome), summary outcome]

/-- The wording of the last two events. -/
def endMessages : Except (List Diagnostic) Program → List String
  | .ok program =>
    ["assembler: Pass2 -> Done",
      s!"assembled {program.bytes.length} byte(s), {program.symbols.symbols.length} symbol(s)"]
  | .error diagnostics =>
    ["assembler: Pass2 -> Failed", s!"assembly failed with {diagnostics.length} diagnostic(s)"]

theorem map_message_eventsOf (placed : List Placed)
    (outcome : Except (List Diagnostic) Program) :
    (eventsOf placed outcome).map (fun event => (event.severity, event.message)) =
      ["assembler: Start -> Lexing", "assembler: Lexing -> Pass1"].map (Severity.debug, ·) ++
        (placed.map TraceEntry.ofPlaced).map (fun entry => (.trace, entry.message)) ++
        ("assembler: Pass1 -> Pass2" :: endMessages outcome).map (Severity.debug, ·) := by
  have hstart : [Event.entered .start .reading, .entered .reading .placing].map
      (fun event => (event.severity, event.message)) =
      ["assembler: Start -> Lexing", "assembler: Lexing -> Pass1"].map (Severity.debug, ·) := by
    decide +kernel
  have hplaced : (fun event : Event => (event.severity, event.message)) ∘ .placed =
      (fun entry : TraceEntry => (Severity.trace, entry.message)) ∘ .ofPlaced := by
    funext p
    exact congrArg (Severity.trace, ·) (TraceEntry.message_ofPlaced p).symm
  have hencoding : (Event.entered .placing .encoding).message = "assembler: Pass1 -> Pass2" := by
    decide +kernel
  have hdone : (Event.entered .encoding .done).message = "assembler: Pass2 -> Done" := by
    decide +kernel
  have hfailed : (Event.entered .encoding .failed).message = "assembler: Pass2 -> Failed" := by
    decide +kernel
  rw [eventsOf, List.map_append, List.map_append, hstart, List.map_map, List.map_map, hplaced]
  congr 1
  -- the numbers of the summary are those of the outcome
  cases outcome with
  | ok program =>
    show [(Severity.debug, _), (Severity.debug, _), (Severity.debug, _)] = _
    rw [hencoding, finalStage, hdone]
    rfl
  | error diagnostics =>
    show [(Severity.debug, _), (Severity.debug, _), (Severity.debug, _)] = _
    rw [hencoding, finalStage, hfailed]
    rfl

/-- The stages of a run one after the other, with what is noted in them. -/
theorem log_run (table : InstructionSet) (options : Options) (lines : List String) :
    (run table options lines).log =
      (((((Log.empty.enter .reading).enter .placing).note
        (layoutOf table options.origin lines).events).enter .encoding).enter
          (finalStage (run table options lines).outcome)).note
            [summary (run table options lines).outcome] := by
  simp only [run]
  split <;> rfl

/-- The log of a run is sound, for no stage before the last is final. -/
theorem sound_log_run (table : InstructionSet) (options : Options) (lines : List String) :
    (run table options lines).log.Sound := by
  have hread : ((Log.empty.enter .reading).enter .placing).Sound :=
    (Log.sound_empty.enter rfl .reading).enter rfl .placing
  have hplaced : (((Log.empty.enter .reading).enter .placing).note
      (layoutOf table options.origin lines).events).Sound := by
    apply hread.note
    intro event hevent
    rw [layoutOf, Layout.ofStatements, Layout.events_ofState] at hevent
    obtain ⟨p, -, rfl⟩ := List.mem_map.mp hevent
    rfl
  rw [log_run]
  apply ((hplaced.enter rfl .encoding).enter rfl _).note
  intro event hevent
  rw [List.mem_singleton.mp hevent]
  cases (run table options lines).outcome <;> rfl

theorem events_log_run (table : InstructionSet) (options : Options) (lines : List String) :
    (run table options lines).log.events =
      eventsOf (layoutOf table options.origin lines).placed (run table options lines).outcome := by
  rw [log_run]
  simp [eventsOf, Log.note, Log.enter, Log.empty, layoutOf, Layout.ofStatements,
    Layout.events_ofState]

theorem trace_log_run (table : InstructionSet) (options : Options) (lines : List String) :
    (run table options lines).log.trace =
      (layoutOf table options.origin lines).placed.map .ofPlaced := by
  have hfront : [Event.entered .start .reading, .entered .reading .placing].filterMap
      Event.traced? = [] := rfl
  have hplaced : Event.traced? ∘ Event.placed = some ∘ TraceEntry.ofPlaced := rfl
  have hback : [Event.entered .placing .encoding,
      .entered .encoding (finalStage (run table options lines).outcome),
      summary (run table options lines).outcome].filterMap Event.traced? = [] := by
    cases (run table options lines).outcome <;> rfl
  rw [Log.trace, events_log_run, eventsOf, List.filterMap_append, List.filterMap_append, hfront,
    hback, List.filterMap_map, hplaced, List.filterMap_eq_map, List.nil_append, List.append_nil]

theorem stage_log_run (table : InstructionSet) (options : Options) (lines : List String) :
    (run table options lines).log.stage = finalStage (run table options lines).outcome := by
  rw [log_run]
  rfl

/-- A program consists of what has been placed, all of which can be encoded. -/
theorem encoded_of_outcome_eq_ok {table : InstructionSet} {options : Options} {lines : List String}
    {program : Program} (h : (run table options lines).outcome = .ok program) :
    (layoutOf table options.origin lines).encodingDiagnostics = [] ∧
      program = .ofInstructions options.origin (layoutOf table options.origin lines).encoded
        (layoutOf table options.origin lines).symbols := by
  simp only [run] at h
  split at h
  · next hempty =>
    obtain ⟨-, hencoding⟩ := List.append_eq_nil_iff.mp (List.isEmpty_iff.mp hempty)
    exact ⟨hencoding, (Except.ok.inj h).symm⟩
  · simp at h

/-- So the trace shows the program instruction by instruction, -/
theorem trace_of_outcome_eq_ok {table : InstructionSet} {options : Options} {lines : List String}
    {program : Program} (h : (run table options lines).outcome = .ok program) :
    (run table options lines).log.trace = program.instructions.map .ofEncoded := by
  obtain ⟨hencoding, rfl⟩ := encoded_of_outcome_eq_ok h
  rw [trace_log_run, ← Layout.map_ofEncoded_encoded hencoding]
  rfl

/-- and its sizes make up the code. -/
theorem sum_size_of_outcome_eq_ok {table : InstructionSet} {options : Options} {lines : List String}
    {program : Program} (h : (run table options lines).outcome = .ok program) :
    ((run table options lines).log.trace.map TraceEntry.size).sum = program.bytes.length := by
  have hbytes : program.bytes = program.instructions.flatMap Encoded.bytes := by
    obtain ⟨-, hprogram⟩ := encoded_of_outcome_eq_ok h
    rw [hprogram]
    rfl
  rw [trace_of_outcome_eq_ok h, hbytes, Encoded.length_flatMap_bytes, List.map_map]
  rfl

/-- **What an assembly logs**, and how it mirrors the result. -/
structure Logged (table : InstructionSet) (options : Options) (lines : List String)
    (assembly : Assembly) : Prop where
  /-- The events are two transitions, one event for each placed instruction, the
      transition to the encoding, that to the final stage, and the summary. -/
  events_eq : assembly.log.events =
    eventsOf (layoutOf table options.origin lines).placed assembly.outcome
  /-- They are worded like this, the placed instructions with their line, address,
      mnemonic and size, and these alone are as fine as a trace. -/
  messages_eq : assembly.log.events.map (fun event => (event.severity, event.message)) =
    ["assembler: Start -> Lexing", "assembler: Lexing -> Pass1"].map (Severity.debug, ·) ++
      assembly.log.trace.map (fun entry => (.trace, entry.message)) ++
      ("assembler: Pass1 -> Pass2" :: endMessages assembly.outcome).map (Severity.debug, ·)
  /-- The trace is that of the statements: whatever is wrong, the accepted
      instructions in front of the first that does not fit, -/
  trace_eq : assembly.log.trace =
    traceOf table options.origin.toNat (Reading.statements (Reading.ofLines lines))
  /-- in the order of their lines. -/
  ascending : assembly.log.trace.Pairwise fun a b => a.line < b.line
  /-- The events lead from the start to the final stage, -/
  replay_eq : Stage.start.replay assembly.log.events = some (finalStage assembly.outcome)
  /-- and each transition leaves the stage that the assembly is in, which is never
      a final one. -/
  not_isFinal : ∀ front previous next back,
    assembly.log.events = front ++ .entered previous next :: back →
      Stage.start.replay front = some previous ∧ previous.isFinal = false
  /-- The trace of a program is that of its instructions, one by one, -/
  trace_of_ok : ∀ program, assembly.outcome = .ok program →
    assembly.log.trace = program.instructions.map .ofEncoded
  /-- and its sizes add up to the code. -/
  sum_size_of_ok : ∀ program, assembly.outcome = .ok program →
    (assembly.log.trace.map TraceEntry.size).sum = program.bytes.length

end Assembly

end Mos6502
