import Mos6502.Opcode.Nmos
import Mos6502.Proofs.Acceptance
import Mos6502.Proofs.Grammar
import Mos6502.Proofs.Substance
import Mos6502.Text.Lines

/-! # Line Ends

    A source may be given as one text or as a list of lines, and the lines of a
    text may be ended by a line feed alone or with a carriage return in front
    of it. The lines that a text is split into differ from those it has been
    put together from in two ways: a carriage return at the end of a line may be
    gone, and so may an empty line at the end (`Padded`). Neither can be seen in
    what is assembled, because blanks at the end of a line reach nothing but its
    comment (`Statement.read_append_blanks`), and a blank line does nothing.
-/

namespace Mos6502

open Text

namespace Fields

variable {front middle tail blanks cs : List Char} {label comment : Option String}
  {operation : Option Operation} {column : Nat}

/-! ### Blanks at the end of a line -/

theorem LabelPart.append_blanks (h : LabelPart front label) (hblanks : IsBlanks blanks) :
    LabelPart (front ++ blanks) label := by
  cases h with
  | absent hfront => exact .absent (isBlanks_append_iff.mpr ⟨hfront, hblanks⟩)
  | present hfront hlabel hmore =>
    have hpart := LabelPart.present hfront hlabel (isBlanks_append_iff.mpr ⟨hmore, hblanks⟩)
    simpa only [List.append_assoc, List.cons_append] using hpart

theorem OperationPart.append_blanks (h : OperationPart column middle operation)
    (hmiddle : middle ≠ []) (hblanks : IsBlanks blanks) :
    ∃ operation', OperationPart column (middle ++ blanks) operation' ∧
      ∀ n label comment, Statement.ofFields n ⟨label, operation', comment⟩ =
        Statement.ofFields n ⟨label, operation, comment⟩ := by
  cases h with
  | absent => exact absurd rfl hmiddle
  | bare hword hmore =>
    have hpart : OperationPart column _ _ :=
      .bare hword (isBlanks_append_iff.mpr ⟨hmore, hblanks⟩)
    rw [← List.append_assoc] at hpart
    -- but there is none, so nobody asks for its column
    exact ⟨_, hpart, fun n label comment => rfl⟩
  | full hword hgap hne hoperand hmore =>
    have hpart : OperationPart column _ _ :=
      .full hword hgap hne hoperand (isBlanks_append_iff.mpr ⟨hmore, hblanks⟩)
    simp only [← List.append_assoc] at hpart ⊢
    exact ⟨_, hpart, fun n label comment => rfl⟩

theorem exists_append_blanks (hlabel : LabelPart front label)
    (hoperation : OperationPart (utf8Width front) middle operation) (hblanks : IsBlanks blanks) :
    ∃ front' middle' operation', front' ++ middle' = front ++ (middle ++ blanks) ∧
      LabelPart front' label ∧ OperationPart (utf8Width front') middle' operation' ∧
      ∀ n label comment, Statement.ofFields n ⟨label, operation', comment⟩ =
        Statement.ofFields n ⟨label, operation, comment⟩ := by
  rcases eq_or_ne middle [] with rfl | hmiddle
  · -- behind the label, or in an empty line
    have hnone : operation = none := by
      generalize hnil : ([] : List Char) = middle at hoperation
      cases hoperation with
      | absent => rfl
      | bare hword => simp_all [isMnemonic]
      | full hword => simp_all [isMnemonic]
    refine ⟨front ++ blanks, [], none, by simp, hlabel.append_blanks hblanks, .absent, ?_⟩
    exact fun n label comment => by rw [hnone]
  · obtain ⟨operation', hoperation', hsame⟩ := hoperation.append_blanks hmiddle hblanks
    exact ⟨front, middle ++ blanks, operation', rfl, hlabel, hoperation', hsame⟩

/-- A malformed line is malformed for the same reason with blanks behind it. -/
theorem ReadsAs.append_blanks {error : FieldError} (h : ReadsAs cs (.error error))
    (hblanks : IsBlanks blanks) : ReadsAs (cs ++ blanks) (.error error) := by
  cases h with
  | @emptyLabel front rest hfront =>
    have hreads := @ReadsAs.emptyLabel front (rest ++ blanks) hfront
    simpa only [List.append_assoc, List.cons_append] using hreads
  | @invalidLabel front word rest hfront hword hinvalid =>
    have hreads := @ReadsAs.invalidLabel front word (rest ++ blanks) hfront hword hinvalid
    simpa only [List.append_assoc, List.cons_append] using hreads
  | @invalidMnemonic front word rest label hlabel hword hinvalid hcolon hrest =>
    have hstop : Stops isWordChar (rest ++ blanks) := by
      rcases eq_or_ne rest [] with rfl | hne
      · rw [List.nil_append, ← List.append_nil blanks]
        exact stops_isWordChar_append hblanks stops_nil
      · rwa [stops_append_iff hne]
    have hreads := ReadsAs.invalidMnemonic hlabel hword hinvalid hcolon hstop
    simpa only [List.append_assoc] using hreads
  | trailingText hlabel hword hgap hne hoperand hbetween hne' htrailing hmore =>
    have hreads := ReadsAs.trailingText hlabel hword hgap hne hoperand hbetween hne' htrailing
      (isBlanks_append_iff.mpr ⟨hmore, hblanks⟩)
    simpa only [List.append_assoc] using hreads

/-- A label is ended by its colon, so blanks behind the line have nothing to do
    with it. -/
theorem leadingLabel_append_blanks {text padded : String}
    (hpadded : padded.toList = text.toList ++ blanks) (hblanks : IsBlanks blanks) :
    leadingLabel padded = leadingLabel text := by
  apply Option.ext
  intro label
  rw [leadingLabel_eq_some_iff, leadingLabel_eq_some_iff, hpadded]
  constructor
  · intro ⟨front, rest, htext, hfront, hlabel⟩
    rw [← List.append_assoc, List.append_cons] at htext
    -- the text goes at least as far as the colon
    rcases List.append_eq_append_iff.mp htext with ⟨more, hcolon, hrest⟩ | ⟨more, hmore, -⟩
    · rcases List.eq_nil_or_concat more with rfl | ⟨init, last, rfl⟩
      · refine ⟨front, [], ?_, hfront, hlabel⟩
        rw [List.append_nil] at hcolon
        rw [← hcolon, List.append_assoc]
      · rw [List.concat_eq_append, ← List.append_assoc] at hcolon
        obtain ⟨-, hlast⟩ := List.append_inj' hcolon rfl
        have hblank : isBlank ':' := by
          apply hblanks
          rw [hrest, List.cons.inj hlast |>.1]
          simp
        exact absurd hblank (by decide)
    · refine ⟨front, more, ?_, hfront, hlabel⟩
      rw [hmore, List.append_assoc, List.append_assoc, List.singleton_append]
  · intro ⟨front, rest, htext, hfront, hlabel⟩
    refine ⟨front, rest ++ blanks, ?_, hfront, hlabel⟩
    rw [htext, List.append_assoc, List.append_assoc, List.cons_append]

end Fields

namespace Statement

open Fields

variable {blanks : List Char}

theorem ofFields_withoutComment (n : Nat) (label : Option String) (operation : Option Operation)
    (comment other : Option String) :
    (ofFields n ⟨label, operation, comment⟩).map withoutComment =
      (ofFields n ⟨label, operation, other⟩).map withoutComment := by
  unfold ofFields
  cases operation with
  | none => rfl
  | some operation =>
    simp only
    cases readInstruction operation <;> rfl

theorem exists_readsAs_append {cs : List Char} {label comment : Option String}
    {operation : Option Operation} (h : ReadsAs cs (.ok ⟨label, operation, comment⟩))
    (hblanks : IsBlanks blanks) :
    ∃ operation' comment', ReadsAs (cs ++ blanks) (.ok ⟨label, operation', comment'⟩) ∧
      ∀ n, (ofFields n ⟨label, operation', comment'⟩).map withoutComment =
        (ofFields n ⟨label, operation, comment⟩).map withoutComment := by
  cases h with | @fields front middle tail _ _ _ hlabel hoperation hcomment =>
  cases hcomment with
  | @present text =>
    -- behind a semicolon they belong to the comment
    have hfields := ReadsAs.fields hlabel hoperation (@CommentPart.present (text ++ blanks))
    rw [← List.cons_append, ← List.append_assoc, ← List.append_assoc] at hfields
    rw [← List.append_assoc]
    exact ⟨_, _, hfields, fun n => ofFields_withoutComment n _ _ _ _⟩
  | absent =>
    obtain ⟨front', middle', operation', hsplit, hlabel', hoperation', hsame⟩ :=
      exists_append_blanks hlabel hoperation hblanks
    have hfields := ReadsAs.fields hlabel' hoperation' .absent
    rw [List.append_nil, hsplit] at hfields
    rw [List.append_nil, List.append_assoc]
    exact ⟨_, _, hfields, fun n => by rw [hsame]⟩

/-- **Blanks at the end of a line reach only its comment.** -/
theorem read_append_blanks {text padded : String} (hpadded : padded.toList = text.toList ++ blanks)
    (hblanks : IsBlanks blanks) (n : Nat) :
    (read n padded).map withoutComment = (read n text).map withoutComment := by
  obtain ⟨result, hresult⟩ := exists_readsAs text.toList
  have hread := read_of_readsAs hresult
  cases result with
  | error error =>
    have hsame := hresult.append_blanks hblanks
    rw [← hpadded] at hsame
    rw [read, read, hread, read_of_readsAs hsame]
  | ok fields =>
    obtain ⟨operation', comment', hpad, hsame⟩ := exists_readsAs_append hresult hblanks
    rw [← hpadded] at hpad
    rw [read, read, hread, read_of_readsAs hpad]
    exact hsame n

end Statement

/-! ### Lines with blanks behind them -/

/-- The first source is the second one with blanks at the end of its lines and
    blank lines behind them. -/
inductive Padded : List String → List String → Prop
  | blank {lines : List String} (hblank : ∀ line ∈ lines, IsBlanks line.toList) : Padded lines []
  | cons {padded line : String} {blanks : List Char} {lines others : List String}
      (hpadded : padded.toList = line.toList ++ blanks) (hblanks : IsBlanks blanks)
      (hrest : Padded lines others) : Padded (padded :: lines) (line :: others)

namespace Reading

open Statement

theorem sameSubstance_append_blanks {text padded : String} {blanks : List Char}
    (hpadded : padded.toList = text.toList ++ blanks) (hblanks : IsBlanks blanks) (n : Nat) :
    SameSubstance [ofLine n padded] [ofLine n text] := by
  have hsame := read_append_blanks hpadded hblanks n
  have hlabel := Fields.leadingLabel_append_blanks hpadded hblanks
  unfold ofLine
  cases hread : read n text with
  | ok s =>
    cases hread' : read n padded with
    | error d => simp [hread, hread', Except.map] at hsame
    | ok t =>
      simp only [hread, hread', Except.map, Except.ok.injEq] at hsame
      exact ⟨rfl, substance_singleton_eq_of_withoutComment_eq hsame⟩
  | error d =>
    cases hread' : read n padded with
    | ok t => simp [hread, hread', Except.map] at hsame
    | error e =>
      simp only [hread, hread', Except.map, Except.error.injEq] at hsame
      rw [hsame, recover, recover, hlabel]
      exact ⟨rfl, rfl⟩

theorem sameSubstance_blank {lines : List String} (h : ∀ line ∈ lines, IsBlanks line.toList)
    (first : Nat) : SameSubstance (ofLinesFrom first lines) [] := by
  induction lines generalizing first with
  | nil => exact ⟨rfl, rfl⟩
  | cons line lines ih =>
    obtain ⟨hline, hlines⟩ := List.forall_mem_cons.mp h
    have hempty : SameSubstance [ofLine first line] [ofLine first ""] :=
      sameSubstance_append_blanks (List.nil_append _).symm hline first
    obtain ⟨hdiagnostics, hsubstance⟩ := hempty.append (ih hlines (first + 1))
    exact ⟨hdiagnostics, hsubstance⟩

end Reading

theorem Padded.sameSubstance {lines others : List String} (h : Padded lines others) (first : Nat) :
    Reading.SameSubstance (Reading.ofLinesFrom first lines) (Reading.ofLinesFrom first others) := by
  induction h generalizing first with
  | blank hblank => exact Reading.sameSubstance_blank hblank first
  | cons hpadded hblanks hrest ih =>
    exact (Reading.sameSubstance_append_blanks hpadded hblanks first).append (ih (first + 1))

/-! ### Lines of a text -/

namespace Text

variable {line rest : List Char}

/-- A line is read back from in front of a carriage return and a line feed,
    whatever it ends in. -/
theorem splitLines_append_return_newline (rest : List Char) (hfeed : '\n' ∉ line) :
    splitLines (line ++ '\r' :: '\n' :: rest) = line :: splitLines rest := by
  induction line with
  | nil => simp [splitLines]
  | cons c line ih =>
    obtain ⟨hne, hfeed'⟩ := List.ne_and_not_mem_of_not_mem_cons hfeed
    -- the next character is one of the line, or the carriage return
    have hnext : ¬ (c = '\r' ∧ (line ++ '\r' :: '\n' :: rest).head? = some '\n') := by
      intro hboth
      have hhead := hboth.2
      cases line with
      | nil => simp at hhead
      | cons d line => simp_all
    simp only [List.cons_append, splitLines, Ne.symm hne, hnext, if_false, ih hfeed']

/-- What may stand between two lines. -/
def IsLineEnd (lineEnd : String) : Prop := lineEnd = "\n" ∨ lineEnd = "\r\n"

/-- A line is read back from in front of either line end, except that a carriage
    return in front of a line feed is taken for a part of the line end. -/
theorem exists_splitLines_append {lineEnd : String} (hend : IsLineEnd lineEnd) (rest : List Char)
    (hfeed : '\n' ∉ line) :
    ∃ short blanks, line = short ++ blanks ∧ IsBlanks blanks ∧
      splitLines (line ++ lineEnd.toList ++ rest) = short :: splitLines rest := by
  rw [List.append_assoc]
  rcases hend with rfl | rfl
  · by_cases hreturn : line.getLast? = some '\r'
    · obtain ⟨short, rfl⟩ := List.getLast?_eq_some_iff.mp hreturn
      have hshort : '\n' ∉ short := fun hmem => hfeed (List.mem_append_left _ hmem)
      refine ⟨short, ['\r'], rfl, by simp [IsBlanks]; decide, ?_⟩
      rw [List.append_assoc]
      exact splitLines_append_return_newline rest hshort
    · exact ⟨line, [], (List.append_nil line).symm, isBlanks_nil,
        splitLines_append_newline rest hfeed hreturn⟩
  · exact ⟨line, [], (List.append_nil line).symm, isBlanks_nil,
      splitLines_append_return_newline rest hfeed⟩

/-- A line that is not ended is the last one, unless it is empty. -/
theorem splitLines_of_not_mem (hfeed : '\n' ∉ line) :
    splitLines line = if line = [] then [] else [line] := by
  induction line with
  | nil => rfl
  | cons c line ih =>
    obtain ⟨hne, hfeed'⟩ := List.ne_and_not_mem_of_not_mem_cons hfeed
    have hnext : ¬ (c = '\r' ∧ line.head? = some '\n') := by
      intro hboth
      exact hfeed' (List.mem_of_head? hboth.2)
    simp only [splitLines, Ne.symm hne, hnext, if_false, ih hfeed']
    cases line <;> simp

end Text

/-- The lines of joined lines are the lines, up to blanks. -/
theorem padded_lines_intercalate {lineEnd : String} (hend : IsLineEnd lineEnd) {lines : List String}
    (hfeed : ∀ line ∈ lines, '\n' ∉ line.toList) :
    Padded lines (Text.lines (lineEnd.intercalate lines)) := by
  unfold Text.lines
  rw [String.toList_intercalate]
  induction lines with
  | nil => exact .blank (by simp)
  | cons line lines ih =>
    obtain ⟨hline, hlines⟩ := List.forall_mem_cons.mp hfeed
    cases lines with
    | nil =>
      rw [List.map_singleton, List.intercalate_singleton, splitLines_of_not_mem hline]
      by_cases hempty : line.toList = []
      · rw [if_pos hempty]
        exact .blank (by simp [hempty, IsBlanks])
      · rw [if_neg hempty, List.map_singleton]
        exact .cons (by simp) isBlanks_nil (.blank (by simp))
    | cons other lines =>
      -- the rest is joined to the line by a line end
      obtain ⟨short, blanks, hshort, hblanks, hsplit⟩ :=
        exists_splitLines_append hend (lineEnd.toList.intercalate ((other :: lines).map String.toList))
          hline
      rw [List.map_cons, List.map_cons, List.intercalate_cons_cons, ← List.map_cons, hsplit,
        List.map_cons]
      refine .cons ?_ hblanks (ih hlines)
      rw [hshort, String.toList_ofList]

/-- **Line ends do not matter.** The lines of a source may be given as a list,
    or as a text in which they are joined by line feeds, with or without a
    carriage return in front of each. The outcome is the same, be it the program
    or the diagnostics. -/
theorem assemble_intercalate (table : InstructionSet) (options : Options) {lines : List String}
    (hfeed : ∀ line ∈ lines, '\n' ∉ line.toList) :
    assemble table options ("\n".intercalate lines) = assembleLines table options lines ∧
      assemble table options ("\r\n".intercalate lines) = assembleLines table options lines := by
  have hsame : ∀ lineEnd, IsLineEnd lineEnd →
      assemble table options (lineEnd.intercalate lines) = assembleLines table options lines := by
    intro lineEnd hend
    have hpadded := padded_lines_intercalate hend hfeed
    unfold assemble assembleLines
    rw [Assembly.run_eq_of_sameSubstance (hpadded.sameSubstance 1) table options]
  exact ⟨hsame "\n" (.inl rfl), hsame "\r\n" (.inr rfl)⟩

/-- A loop whose first line ends in a carriage return and whose last line is
    empty. -/
theorem assemble_intercalate_loop :
    ∃ p, assembleLines .nmos { origin := 0x0600 } ["loop: DEX ; count\r", "BNE *-3", ""] = .ok p ∧
      assemble .nmos { origin := 0x0600 } "loop: DEX ; count\r\nBNE *-3\n" = .ok p ∧
      assemble .nmos { origin := 0x0600 } "loop: DEX ; count\r\r\nBNE *-3\r\n" = .ok p := by
  obtain ⟨p, hp, -⟩ := @exists_program_of_ofLines_eq_nil .nmos { origin := 0x0600 }
    ["loop: DEX ; count\r", "BNE *-3", ""] (by decide +kernel)
  obtain ⟨hfeed, hreturn⟩ := @assemble_intercalate .nmos { origin := 0x0600 }
    ["loop: DEX ; count\r", "BNE *-3", ""] (by decide +kernel)
  exact ⟨p, hp, hfeed.trans hp, hreturn.trans hp⟩

end Mos6502
