import Mos6502.Assembly
import Mos6502.Proofs.Layout
import Mos6502.Proofs.Reading

/-! # What Counts of a Source

    Of a statement, the comment counts for nothing, and a statement without a
    label and an instruction does not count at all. What is left of a list of
    statements is its substance, and two lists with the same substance have the
    same layout (`Layout.ofState_substance`). So two sources come to the same if
    their lines are refused for the same reasons and their statements have the
    same substance (`Assembly.run_eq_of_sameSubstance`).
-/

namespace Mos6502

namespace Statement

/-- Does the statement do nothing? -/
def isIdle (s : Statement) : Bool := s.label.isNone && s.instruction.isNone

/-- The statement without its comment. -/
def withoutComment (s : Statement) : Statement := { s with comment := none }

/-- What counts of some statements. -/
def substance (statements : List Statement) : List Statement :=
  (statements.filter fun s => !s.isIdle).map withoutComment

@[simp] theorem substance_nil : substance [] = [] := rfl

theorem substance_append (statements others : List Statement) :
    substance (statements ++ others) = substance statements ++ substance others := by
  simp only [substance, List.filter_append, List.map_append]

theorem substance_singleton_of_isIdle {s : Statement} (h : s.isIdle) : substance [s] = [] := by
  simp [substance, h]

/-- A comment does not make a statement idle, or keep it from being so. -/
theorem substance_singleton_eq_of_withoutComment_eq {s t : Statement}
    (h : s.withoutComment = t.withoutComment) : substance [s] = substance [t] := by
  have hidle : s.isIdle = t.isIdle := by
    show s.withoutComment.isIdle = t.withoutComment.isIdle
    rw [h]
  cases ht : t.isIdle <;> simp [substance, hidle, ht, h]

end Statement

namespace Layout

open Statement

variable {table : InstructionSet} {s : Statement}

theorem place_of_isIdle (table : InstructionSet) (state : State) (h : s.isIdle) :
    state.place table s = (state, ⟨none, [], []⟩) := by
  obtain ⟨hlabel, hinstruction⟩ := Bool.and_eq_true_iff.mp h
  simp [State.place, Option.isNone_iff_eq_none.mp hlabel, Option.isNone_iff_eq_none.mp hinstruction]

theorem place_withoutComment (table : InstructionSet) (state : State) (s : Statement) :
    state.place table s.withoutComment = state.place table s := rfl

/-- **Only the substance is laid out.** -/
theorem ofState_substance (table : InstructionSet) (state : State) (statements : List Statement) :
    ofState table state (substance statements) = ofState table state statements := by
  induction statements generalizing state with
  | nil => rfl
  | cons s rest ih =>
    rw [← List.singleton_append, substance_append]
    by_cases h : s.isIdle
    · rw [substance_singleton_of_isIdle h, List.nil_append, ih, List.singleton_append, ofState,
        place_of_isIdle table state h]
      rfl
    · have hone : substance [s] = [s.withoutComment] := by simp [substance, h]
      rw [hone, List.singleton_append, List.singleton_append, ofState, place_withoutComment]
      simp only [ih]
      rfl

end Layout

namespace Reading

/-- Two sources come to the same for the layout and for what is reported when
    they are read. -/
structure SameSubstance (readings others : List Reading) : Prop where
  /-- The same lines are refused for the same reasons, -/
  diagnostics_eq : diagnostics readings = diagnostics others
  /-- and the others say the same. -/
  substance_eq : Statement.substance (statements readings) = Statement.substance (statements others)

/-- That can be seen line by line. -/
theorem SameSubstance.append {readings others more rest : List Reading}
    (h : SameSubstance readings others) (hmore : SameSubstance more rest) :
    SameSubstance (readings ++ more) (others ++ rest) := by
  constructor
  · rw [diagnostics_append, diagnostics_append, h.diagnostics_eq, hmore.diagnostics_eq]
  · rw [statements_append, statements_append, Statement.substance_append,
      Statement.substance_append, h.substance_eq, hmore.substance_eq]

end Reading

/-- **Sources with the same substance are assembled alike.** -/
theorem Assembly.run_eq_of_sameSubstance {lines others : List String}
    (h : Reading.SameSubstance (Reading.ofLines lines) (Reading.ofLines others))
    (table : InstructionSet) (options : Options) :
    run table options lines = run table options others := by
  have hlayout : Layout.ofStatements table options.origin
        (Reading.statements (Reading.ofLines lines)) =
      Layout.ofStatements table options.origin (Reading.statements (Reading.ofLines others)) := by
    unfold Layout.ofStatements
    rw [← Layout.ofState_substance, h.substance_eq, Layout.ofState_substance]
  unfold run found
  dsimp only
  rw [hlayout, h.diagnostics_eq]

end Mos6502
