import Mathlib
import Mos6502.Proofs.OperandText
import Mos6502.Statement.Fields

/-! # The Grammar of Lines

    A line is made up of a label, an operation and a comment, each of which may
    be missing (`LabelPart`, `OperationPart`, `CommentPart`). A text that is not
    made up in this way goes wrong at one place, and how it goes on behind the
    place does not matter. `ReadsAs` says both: which fields a well-formed text
    has, and which field of a malformed text is the first offending one.

    Reading follows the grammar (`read_eq_iff`). The grammar says where a word
    ends by what may follow it, and reading takes words as long as possible, so
    each form of the grammar is read as it says (`read_of_readsAs`). Since every
    text has one of the forms (`exists_readsAs`), there is nothing else that
    reading could give.
-/

namespace Mos6502

namespace Text

/-! ### Words

    A word is made of accepted characters and followed by one that is not
    accepted, or by nothing. -/

/-- Nothing but blanks. -/
def IsBlanks (cs : List Char) : Prop := ∀ c ∈ cs, isBlank c

/-- A text that does not start with an accepted character, so that a word in
    front of it ends there. -/
def Stops (accept : Char → Bool) (rest : List Char) : Prop := ∀ c ∈ rest.head?, accept c = false

variable {accept : Char → Bool} {word rest blanks : List Char}

theorem isBlanks_nil : IsBlanks [] := fun _ hc => absurd hc List.not_mem_nil

theorem isBlanks_append_iff : IsBlanks (blanks ++ word) ↔ IsBlanks blanks ∧ IsBlanks word :=
  List.forall_mem_append

theorem stops_nil : Stops accept [] := fun _ hc => absurd hc (by simp)

@[simp] theorem stops_cons_iff {c : Char} : Stops accept (c :: rest) ↔ accept c = false := by
  simp [Stops]

/-- The first character of a text that is not empty decides whether a word ends
    in front of it. -/
theorem stops_append_iff (h : word ≠ []) : Stops accept (word ++ rest) ↔ Stops accept word := by
  unfold Stops
  rw [List.head?_append_of_ne_nil _ h]

/-- Something stands between where a word stops and an accepted character. -/
theorem Stops.ne_nil {c : Char} (h : Stops accept (word ++ rest)) (hc : rest.head? = some c)
    (haccept : accept c) : word ≠ [] := by
  intro hnil
  rw [hnil] at h
  have hstop := h c hc
  rw [haccept] at hstop
  exact Bool.noConfusion hstop

/-- Every text starts with a word, which may be empty. -/
theorem exists_split (accept : Char → Bool) (cs : List Char) :
    ∃ word rest, cs = word ++ rest ∧ (∀ c ∈ word, accept c) ∧ Stops accept rest := by
  refine ⟨cs.takeWhile accept, cs.dropWhile accept, List.takeWhile_append_dropWhile.symm, ?_, ?_⟩
  · exact List.all_eq_true.mp List.all_takeWhile
  · intro c hc
    have hstops := List.head?_dropWhile_not accept cs
    rw [Option.mem_def.mp hc] at hstops
    exact hstops

namespace Cursor

theorem run_append (hword : ∀ c ∈ word, accept c) (hrest : Stops accept rest) (column : Nat) :
    run accept ⟨column, word ++ rest⟩ = word := by
  have hstop : rest.takeWhile accept = [] := by
    cases rest with
    | nil => rfl
    | cons c rest => rw [List.takeWhile_cons_of_neg (by simp [hrest c rfl])]
  rw [run, List.takeWhile_append_of_pos hword, hstop, List.append_nil]

theorem skip_append (hword : ∀ c ∈ word, accept c) (hrest : Stops accept rest) (column : Nat) :
    skip accept ⟨column, word ++ rest⟩ = ⟨column + utf8Width word, rest⟩ := by
  have hstop : rest.dropWhile accept = rest := by
    cases rest with
    | nil => rfl
    | cons c rest => rw [List.dropWhile_cons_of_neg (by simp [hrest c rfl])]
  rw [skip, run_append hword hrest, List.dropWhile_append_of_pos hword, hstop]

theorem skipBlanks_append (hblanks : IsBlanks blanks) (hrest : Stops isBlank rest)
    (column : Nat) :
    skipBlanks ⟨column, blanks ++ rest⟩ = ⟨column + utf8Width blanks, rest⟩ :=
  skip_append hblanks hrest column

theorem skipBlanks_eq_self {column : Nat} (hrest : Stops isBlank rest) :
    skipBlanks ⟨column, rest⟩ = ⟨column, rest⟩ :=
  skipBlanks_append isBlanks_nil hrest column

end Cursor

/-- A text starts with one word only. -/
theorem split_unique {word' rest' : List Char} (heq : word ++ rest = word' ++ rest')
    (hword : ∀ c ∈ word, accept c) (hrest : Stops accept rest) (hword' : ∀ c ∈ word', accept c)
    (hrest' : Stops accept rest') : word = word' ∧ rest = rest' := by
  have hrun := Cursor.run_append hword hrest 0
  have hskip := Cursor.skip_append hword hrest 0
  rw [heq, Cursor.run_append hword' hrest'] at hrun
  rw [heq, Cursor.skip_append hword' hrest'] at hskip
  exact ⟨hrun.symm, (Cursor.mk.inj hskip).2.symm⟩

/-! ### Trimming at the end -/

theorem exists_eq_trimEnd_append (cs : List Char) :
    ∃ blanks, cs = trimEnd cs ++ blanks ∧ IsBlanks blanks :=
  ⟨cs.rtakeWhile isBlank, List.rdropWhile_append_rtakeWhile.symm,
    fun _ hc => List.mem_rtakeWhile_imp hc⟩

theorem trimEnd_append (hword : ∀ c, word.getLast? = some c → isBlank c = false)
    (hblanks : IsBlanks blanks) : trimEnd (word ++ blanks) = word := by
  induction blanks using List.reverseRecOn with
  | nil => rw [List.append_nil, trimEnd_eq_self hword]
  | append_singleton blanks c ih =>
    obtain ⟨hblanks, hc⟩ := isBlanks_append_iff.mp hblanks
    rw [← List.append_assoc]
    show (word ++ blanks ++ [c]).rdropWhile isBlank = word
    rw [List.rdropWhile_concat_pos isBlank _ c (hc c List.mem_cons_self)]
    exact ih hblanks

end Text

namespace Fields

open Text

/-! ### The parts of a line -/

/-- A word that is not empty. -/
def IsWord (accept : Char → Bool) (word : List Char) : Prop := word ≠ [] ∧ ∀ c ∈ word, accept c

/-- A label is a word of letters and digits. -/
def IsLabel (label : String) : Prop := label.toList ≠ [] ∧ label.toList.all Char.isAlphanum

/-- What stands in front of the mnemonic: blanks, or a label and its colon with
    blanks on either side. -/
inductive LabelPart : List Char → Option String → Prop
  | absent {blanks : List Char} (hblanks : IsBlanks blanks) : LabelPart blanks none
  | present {blanks more : List Char} {label : String} (hblanks : IsBlanks blanks)
      (hlabel : IsLabel label) (hmore : IsBlanks more) :
      LabelPart (blanks ++ (label.toList ++ ':' :: more)) (some label)

/-- A mnemonic with its operand and the blanks behind both. It starts in the
    given column. -/
inductive OperationPart (column : Nat) : List Char → Option Operation → Prop
  | absent : OperationPart column [] none
  | bare {word blanks : List Char} (hword : isMnemonic word) (hblanks : IsBlanks blanks) :
      OperationPart column (word ++ blanks)
        (some
          { mnemonic := .ofList (word.map Char.toUpper)
            column := column
            operand := ""
            operandColumn := column + utf8Width word + utf8Width blanks })
  | full {word gap operand blanks : List Char} (hword : isMnemonic word) (hgap : IsBlanks gap)
      (hne : gap ≠ []) (hoperand : IsWord isWordChar operand) (hblanks : IsBlanks blanks) :
      OperationPart column (word ++ (gap ++ (operand ++ blanks)))
        (some
          { mnemonic := .ofList (word.map Char.toUpper)
            column := column
            operand := .ofList operand
            operandColumn := column + utf8Width word + utf8Width gap })

/-- A comment behind its semicolon, up to the end of the line. -/
inductive CommentPart : List Char → Option String → Prop
  | absent : CommentPart [] none
  | present {comment : List Char} : CommentPart (';' :: comment) (some (.ofList comment))

/-- Text that stands where only a comment may stand. It neither starts nor ends
    in a blank. -/
structure IsTrailing (trailing : List Char) : Prop where
  /-- It starts like a word. -/
  starts : ∃ c, trailing.head? = some c ∧ isWordChar c
  /-- It does not end in a blank. -/
  ends : ∃ c, trailing.getLast? = some c ∧ isBlank c = false

/-- **The grammar of lines**: the fields of a text, or its first offending field
    with the column in which it starts. -/
inductive ReadsAs : List Char → Except FieldError Fields → Prop
  | fields {front middle tail : List Char} {label comment : Option String}
      {operation : Option Operation} (hlabel : LabelPart front label)
      (hoperation : OperationPart (utf8Width front) middle operation)
      (hcomment : CommentPart tail comment) :
      ReadsAs (front ++ (middle ++ tail)) (.ok ⟨label, operation, comment⟩)
  | emptyLabel {blanks rest : List Char} (hblanks : IsBlanks blanks) :
      ReadsAs (blanks ++ ':' :: rest) (.error ⟨utf8Width blanks, .emptyLabel⟩)
  | invalidLabel {blanks word rest : List Char} (hblanks : IsBlanks blanks)
      (hword : IsWord isLabelChar word) (hinvalid : ¬ word.all Char.isAlphanum) :
      ReadsAs (blanks ++ (word ++ ':' :: rest))
        (.error ⟨utf8Width blanks, .invalidLabel (.ofList word)⟩)
  | invalidMnemonic {front word rest : List Char} {label : Option String}
      (hlabel : LabelPart front label) (hword : IsWord isWordChar word)
      (hinvalid : ¬ isMnemonic word) (hcolon : label = none → ':' ∉ word)
      (hrest : Stops isWordChar rest) :
      ReadsAs (front ++ (word ++ rest))
        (.error ⟨utf8Width front, .invalidMnemonic (.ofList word)⟩)
  | trailingText {front word gap operand between trailing blanks : List Char}
      {label : Option String} (hlabel : LabelPart front label) (hword : isMnemonic word)
      (hgap : IsBlanks gap) (hne : gap ≠ []) (hoperand : IsWord isWordChar operand)
      (hbetween : IsBlanks between) (hne' : between ≠ []) (htrailing : IsTrailing trailing)
      (hblanks : IsBlanks blanks) :
      ReadsAs (front ++ (word ++ (gap ++ (operand ++ (between ++ (trailing ++ blanks))))))
        (.error ⟨utf8Width front + utf8Width word + utf8Width gap + utf8Width operand +
          utf8Width between, .trailingText (.ofList trailing)⟩)

/-! ### Words of a line -/

theorem isBlank_of_isWordChar {c : Char} (h : isWordChar c) : isBlank c = false := by
  simp only [isWordChar, Bool.and_eq_true, Bool.not_eq_true'] at h
  exact h.1

theorem ne_semicolon_of_isWordChar {c : Char} (h : isWordChar c) : c ≠ ';' := by
  intro heq
  rw [heq] at h
  exact absurd h (by decide)

theorem isWordChar_of_isLabelChar {c : Char} (h : isLabelChar c) : isWordChar c :=
  (Bool.and_eq_true_iff.mp h).1

theorem isLabelChar_of_isAlphanum {c : Char} (h : c.isAlphanum) : isLabelChar c := by
  have hblank := isBlank_eq_false_of_isAlphanum h
  have hne : ∀ d : Char, d.isAlphanum = false → c ≠ d := by
    intro d hd heq
    rw [heq, hd] at h
    exact Bool.false_ne_true h
  simp [isLabelChar, isWordChar, hblank, hne ';' (by decide), hne ':' (by decide)]

theorem isLabelChar_of_isLabel {label : String} (h : IsLabel label) :
    ∀ c ∈ label.toList, isLabelChar c :=
  fun c hc => isLabelChar_of_isAlphanum (List.all_eq_true.mp h.2 c hc)

theorem IsLabel.isWord {label : String} (h : IsLabel label) : IsWord isLabelChar label.toList :=
  ⟨h.1, isLabelChar_of_isLabel h⟩

theorem isMnemonic_iff {word : List Char} :
    isMnemonic word ↔ word.length = 3 ∧ ∀ c ∈ word, c.isAlpha := by
  simp [isMnemonic]

theorem IsWord.of_isLabelChar {word : List Char} (h : IsWord isLabelChar word) :
    IsWord isWordChar word :=
  ⟨h.1, fun c hc => isWordChar_of_isLabelChar (h.2 c hc)⟩

/-- A mnemonic is a word that could be a label as well. -/
theorem isWord_of_isMnemonic {word : List Char} (h : isMnemonic word) : IsWord isLabelChar word := by
  obtain ⟨hlength, halpha⟩ := isMnemonic_iff.mp h
  refine ⟨List.ne_nil_of_length_eq_add_one hlength, fun c hc => ?_⟩
  exact isLabelChar_of_isAlphanum (by simp [Char.isAlphanum, halpha c hc])

/-- Where a word stops, the text ends, a blank follows or a comment does. -/
theorem stops_isWordChar_iff {rest : List Char} :
    Stops isWordChar rest ↔ ∀ c ∈ rest.head?, isBlank c ∨ c = ';' := by
  simp [Stops, isWordChar, or_iff_not_imp_left]

variable {gap rest blanks : List Char}

theorem stops_isWordChar_of_isBlanks (h : IsBlanks gap) (hne : gap ≠ []) :
    Stops isWordChar (gap ++ rest) := by
  rw [stops_append_iff hne, stops_isWordChar_iff]
  intro c hc
  exact .inl (h c (List.mem_of_head? hc))

theorem stops_isWordChar_append (h : IsBlanks blanks) (hrest : Stops isWordChar rest) :
    Stops isWordChar (blanks ++ rest) := by
  rcases eq_or_ne blanks [] with rfl | hne
  · exact hrest
  · exact stops_isWordChar_of_isBlanks h hne

theorem exists_isWord {accept : Char → Bool} {cs : List Char} {c : Char}
    (hc : cs.head? = some c) (haccept : accept c) :
    ∃ word rest, cs = word ++ rest ∧ IsWord accept word ∧ Stops accept rest := by
  obtain ⟨word, rest, rfl, hword, hrest⟩ := exists_split accept cs
  refine ⟨word, rest, rfl, ⟨?_, hword⟩, hrest⟩
  intro hnil
  rw [hnil] at hc
  have hstop := hrest c hc
  rw [haccept] at hstop
  exact Bool.noConfusion hstop

theorem IsWord.stops_isBlank {word : List Char} (h : IsWord isWordChar word) :
    Stops isBlank (word ++ rest) := by
  rw [stops_append_iff h.1]
  intro c hc
  exact isBlank_of_isWordChar (h.2 c (List.mem_of_head? hc))

theorem stops_isLabelChar (h : Stops isWordChar rest) : Stops isLabelChar rest := by
  intro c hc
  rw [isLabelChar, h c hc, Bool.false_and]

theorem CommentPart.stops {comment : Option String} (h : CommentPart rest comment) :
    Stops isBlank rest ∧ Stops isWordChar rest := by
  cases h with
  | absent => exact ⟨stops_nil, stops_nil⟩
  | present => exact ⟨stops_cons_iff.mpr (by decide), stops_cons_iff.mpr (by decide)⟩

/-- Blanks behind trailing text do not belong to it. -/
theorem IsTrailing.trimEnd_append {trailing : List Char} (h : IsTrailing trailing)
    (hblanks : IsBlanks blanks) : trimEnd (trailing ++ blanks) = trailing := by
  obtain ⟨last, hlast, hend⟩ := h.ends
  apply Text.trimEnd_append _ hblanks
  intro d hd
  rw [hlast, Option.some.injEq] at hd
  rwa [← hd]

theorem IsTrailing.stops_isBlank {trailing : List Char} (h : IsTrailing trailing) :
    Stops isBlank (trailing ++ rest) := by
  obtain ⟨c, hc, hstart⟩ := h.starts
  obtain ⟨more, rfl⟩ := List.head?_eq_some_iff.mp hc
  exact stops_cons_iff.mpr (isBlank_of_isWordChar hstart)

/-- There is no blank in front of a word that is ended by a colon, even if the
    word is empty. -/
theorem stops_isBlank_of_colon {word : List Char} (hword : ∀ c ∈ word, isLabelChar c) :
    Stops isBlank (word ++ ':' :: rest) := by
  cases word with
  | nil => exact stops_cons_iff.mpr (by decide)
  | cons c word =>
    have hc := hword c List.mem_cons_self
    exact stops_cons_iff.mpr (isBlank_of_isWordChar (isWordChar_of_isLabelChar hc))

/-! ### Reading what the grammar says -/

/-- A word that is ended by a colon is taken for a label. -/
theorem readLabel_of_colon {word : List Char} (hblanks : IsBlanks blanks)
    (hword : ∀ c ∈ word, isLabelChar c) (column : Nat) :
    readLabel ⟨column, blanks ++ (word ++ ':' :: rest)⟩ =
      if word.isEmpty then .error ⟨column + utf8Width blanks, .emptyLabel⟩
      else if word.all Char.isAlphanum then
        .ok (some (.ofList word), ⟨column + utf8Width blanks + utf8Width word + 1, rest⟩)
      else .error ⟨column + utf8Width blanks, .invalidLabel (.ofList word)⟩ := by
  have hcolon : Stops isLabelChar (':' :: rest) := stops_cons_iff.mpr (by decide)
  unfold readLabel
  simp only [Cursor.skipBlanks_append hblanks (stops_isBlank_of_colon hword),
    Cursor.skip_append hword hcolon, Cursor.run_append hword hcolon]
  unfold checkLabel
  by_cases hempty : word.isEmpty = true
  · rw [if_pos hempty, if_pos hempty]
    rfl
  · rw [if_neg hempty, if_neg hempty]
    by_cases hall : word.all Char.isAlphanum = true
    · rw [if_pos hall, if_pos hall]
      rfl
    · rw [if_neg hall, if_neg hall]
      rfl

/-- A word that is ended by something else is not. -/
theorem readLabel_of_stops {word : List Char} (hblanks : IsBlanks blanks)
    (hfirst : Stops isBlank (word ++ rest)) (hword : ∀ c ∈ word, isLabelChar c)
    (hstop : Stops isLabelChar rest) (hcolon : rest.head? ≠ some ':') (column : Nat) :
    readLabel ⟨column, blanks ++ (word ++ rest)⟩ =
      .ok (none, ⟨column, blanks ++ (word ++ rest)⟩) := by
  unfold readLabel
  simp only [Cursor.skipBlanks_append hblanks hfirst, Cursor.skip_append hword hstop]
  split
  · next heq =>
    obtain ⟨-, rfl⟩ := Cursor.mk.inj heq
    exact absurd rfl hcolon
  · rfl

/-- A text whose first word is not ended by a colon. -/
def Unlabelled (rest : List Char) : Prop :=
  ∃ word tail, rest = word ++ tail ∧ (∀ c ∈ word, isLabelChar c) ∧ Stops isWordChar tail

theorem unlabelled_of_not_mem {word : List Char} (hword : IsWord isWordChar word)
    (hcolon : ':' ∉ word) (hrest : Stops isWordChar rest) : Unlabelled (word ++ rest) := by
  refine ⟨word, rest, rfl, ?_, hrest⟩
  intro c hc
  have hne : c ≠ ':' := fun heq => hcolon (heq ▸ hc)
  simp [isLabelChar, hword.2 c hc, hne]

/-- The label part is read as its label, and the next word starts behind it. -/
theorem LabelPart.readLabel_eq {front : List Char} {label : Option String}
    (h : LabelPart front label) (hrest : Stops isBlank rest)
    (hunlabelled : label = none → Unlabelled rest) (column : Nat) :
    ∃ c, readLabel ⟨column, front ++ rest⟩ = .ok (label, c) ∧
      c.skipBlanks = ⟨column + utf8Width front, rest⟩ := by
  cases h with
  | absent hblanks =>
    obtain ⟨word, tail, rfl, hword, htail⟩ := hunlabelled rfl
    have hcolon : tail.head? ≠ some ':' := fun h => absurd (htail ':' h) (by decide)
    exact ⟨_, readLabel_of_stops hblanks hrest hword (stops_isLabelChar htail) hcolon column,
      Cursor.skipBlanks_append hblanks hrest column⟩
  | @present blanks more label hblanks hlabel hmore =>
    obtain ⟨hne, hall⟩ := hlabel
    refine ⟨⟨column + utf8Width blanks + utf8Width label.toList + 1, more ++ rest⟩, ?_, ?_⟩
    · rw [List.append_assoc, List.append_assoc, List.cons_append,
        readLabel_of_colon hblanks (isLabelChar_of_isLabel ⟨hne, hall⟩)]
      simp [hne, hall]
    · have hsize : ':'.utf8Size = 1 := rfl
      rw [Cursor.skipBlanks_append hmore hrest]
      simp only [utf8Width_append, utf8Width_cons, hsize, Cursor.mk.injEq, and_true]
      omega

theorem LabelPart.unique {front front' rest' : List Char} {label label' : Option String}
    (h : LabelPart front label) (h' : LabelPart front' label')
    (heq : front ++ rest = front' ++ rest') (hrest : Stops isBlank rest)
    (hrest' : Stops isBlank rest') (hunlabelled : label = none → Unlabelled rest)
    (hunlabelled' : label' = none → Unlabelled rest') :
    utf8Width front = utf8Width front' ∧ rest = rest' := by
  obtain ⟨c, hc, hnext⟩ := h.readLabel_eq hrest hunlabelled 0
  obtain ⟨d, hd, hnext'⟩ := h'.readLabel_eq hrest' hunlabelled' 0
  -- both are what reading the label leaves of the text
  rw [heq, hd, Except.ok.injEq, Prod.mk.injEq] at hc
  rw [← hc.2, hnext', Nat.zero_add, Nat.zero_add, Cursor.mk.injEq] at hnext
  exact ⟨hnext.1.symm, hnext.2.symm⟩

variable {c : Cursor} {column : Nat} {word operand : List Char}

theorem readOperation_of_stops (hc : c.skipBlanks = ⟨column, rest⟩) (hrest : Stops isWordChar rest) :
    readOperation c = .ok (none, c) := by
  have hrun := @Cursor.run_append isWordChar [] rest (by simp) hrest column
  rw [List.nil_append] at hrun
  simp [readOperation, hc, hrun]

theorem readOperation_of_isMnemonic
    (hc : c.skipBlanks = ⟨column, word ++ (gap ++ (operand ++ rest))⟩)
    (hword : isMnemonic word) (hgap : IsBlanks gap) (hoperand : ∀ c ∈ operand, isWordChar c)
    (hstop : Stops isWordChar (gap ++ (operand ++ rest)))
    (hsecond : Stops isBlank (operand ++ rest)) (hrest : Stops isWordChar rest) :
    readOperation c = .ok
      (some
        { mnemonic := .ofList (word.map Char.toUpper)
          column := column
          operand := .ofList operand
          operandColumn := column + utf8Width word + utf8Width gap },
      ⟨column + utf8Width word + utf8Width gap + utf8Width operand, rest⟩) := by
  obtain ⟨hne, hfirst⟩ := (isWord_of_isMnemonic hword).of_isLabelChar
  -- three runs: the mnemonic, the blanks behind it, and the operand
  simp only [readOperation, hc, Cursor.run_append hfirst hstop, Cursor.skip_append hfirst hstop,
    Cursor.skipBlanks_append hgap hsecond, Cursor.run_append hoperand hrest,
    Cursor.skip_append hoperand hrest, List.isEmpty_eq_false_iff.mpr hne, hword, if_true]
  rfl

theorem readOperation_of_not_isMnemonic (hc : c.skipBlanks = ⟨column, word ++ rest⟩)
    (hword : IsWord isWordChar word) (hinvalid : ¬ isMnemonic word) (hrest : Stops isWordChar rest) :
    readOperation c = .error ⟨column, .invalidMnemonic (.ofList word)⟩ := by
  obtain ⟨hne, hall⟩ := hword
  simp [readOperation, hc, Cursor.run_append hall hrest, hne, hinvalid]

theorem CommentPart.readComment_eq {comment : Option String} (h : CommentPart rest comment)
    (hc : c.skipBlanks = ⟨column, rest⟩) : readComment c = .ok comment := by
  cases h <;> simp [readComment, hc]

theorem IsTrailing.readComment_eq {trailing : List Char} (h : IsTrailing trailing)
    (hblanks : IsBlanks blanks) (hc : c.skipBlanks = ⟨column, trailing ++ blanks⟩) :
    readComment c = .error ⟨column, .trailingText (.ofList trailing)⟩ := by
  have htrim := h.trimEnd_append hblanks
  obtain ⟨first, hfirst, hstart⟩ := h.starts
  obtain ⟨more, rfl⟩ := List.head?_eq_some_iff.mp hfirst
  have hne := ne_semicolon_of_isWordChar hstart
  rw [List.cons_append] at hc htrim
  unfold readComment
  rw [hc]
  split <;> simp_all

/-- A line whose first word is a mnemonic has no label. -/
theorem starts_of_isMnemonic (hword : isMnemonic word) (hrest : Stops isWordChar rest) :
    Stops isBlank (word ++ rest) ∧ Unlabelled (word ++ rest) :=
  have hlabel := isWord_of_isMnemonic hword
  ⟨hlabel.of_isLabelChar.stops_isBlank, word, rest, rfl, hlabel.2, hrest⟩

/-- An operation part is read as its operation, and the comment starts behind
    it. -/
theorem OperationPart.readOperation_eq {middle : List Char} {operation : Option Operation}
    (h : OperationPart column middle operation) (hblank : Stops isBlank rest)
    (hrest : Stops isWordChar rest) :
    (Stops isBlank (middle ++ rest) ∧ Unlabelled (middle ++ rest)) ∧
    ∀ c : Cursor, c.skipBlanks = ⟨column, middle ++ rest⟩ →
      ∃ d, readOperation c = .ok (operation, d) ∧
        d.skipBlanks = ⟨column + utf8Width middle, rest⟩ := by
  cases h with
  | absent =>
    refine ⟨⟨hblank, [], rest, rfl, by simp, hrest⟩, ?_⟩
    intro c hc
    exact ⟨c, readOperation_of_stops hc hrest, hc⟩
  | @bare word blanks hword hblanks =>
    -- behind the mnemonic there are blanks, or the comment follows at once
    have hstop := stops_isWordChar_append hblanks hrest
    rw [List.append_assoc]
    refine ⟨starts_of_isMnemonic hword hstop, ?_⟩
    intro c hc
    refine ⟨_, @readOperation_of_isMnemonic blanks rest c column word [] hc hword hblanks
      (by simp) hstop hblank hrest, ?_⟩
    rw [Cursor.skipBlanks_eq_self hblank]
    simp [Nat.add_assoc]
  | @full word gap operand blanks hword hgap hne hoperand hblanks =>
    have hstop : Stops isWordChar (gap ++ (operand ++ (blanks ++ rest))) :=
      stops_isWordChar_of_isBlanks hgap hne
    have hthird := stops_isWordChar_append hblanks hrest
    simp only [List.append_assoc]
    refine ⟨starts_of_isMnemonic hword hstop, ?_⟩
    intro c hc
    refine ⟨_, readOperation_of_isMnemonic hc hword hgap hoperand.2 hstop
      hoperand.stops_isBlank hthird, ?_⟩
    rw [Cursor.skipBlanks_append hblanks hblank]
    simp [Nat.add_assoc]

/-! ### The whole grammar -/

/-- **Each form of the grammar is read as it says.** -/
theorem read_of_readsAs {text : String} {result : Except FieldError Fields}
    (h : ReadsAs text.toList result) : read text = result := by
  unfold read Cursor.start
  generalize text.toList = cs at h
  cases h with
  | @fields front middle tail label comment operation hlabel hoperation hcomment =>
    obtain ⟨hblank, hword⟩ := hcomment.stops
    obtain ⟨⟨hstop, hunlabelled⟩, hread⟩ := hoperation.readOperation_eq hblank hword
    obtain ⟨c, hc, hnext⟩ := hlabel.readLabel_eq hstop (fun _ => hunlabelled) 0
    rw [Nat.zero_add] at hnext
    obtain ⟨d, hd, hlast⟩ := hread c hnext
    simp only [hc, hd, hcomment.readComment_eq hlast, bind, Except.bind, pure, Except.pure]
  | @emptyLabel blanks rest hblanks =>
    have hlabel := @readLabel_of_colon rest blanks [] hblanks (by simp) 0
    simp only [List.nil_append] at hlabel
    simp [hlabel, bind, Except.bind]
  | @invalidLabel blanks word rest hblanks hword hinvalid =>
    have hlabel := @readLabel_of_colon rest blanks word hblanks hword.2 0
    simp only [hlabel, List.isEmpty_eq_false_iff.mpr hword.1, hinvalid, bind, Except.bind]
    simp
  | @invalidMnemonic front word rest label hlabel hword hinvalid hcolon hrest =>
    obtain ⟨c, hc, hnext⟩ := hlabel.readLabel_eq hword.stops_isBlank
      (fun hnone => unlabelled_of_not_mem hword (hcolon hnone) hrest) 0
    rw [Nat.zero_add] at hnext
    simp only [hc, readOperation_of_not_isMnemonic hnext hword hinvalid hrest, bind, Except.bind]
  | @trailingText front word gap operand between trailing blanks label hlabel hword hgap hne
      hoperand hbetween hne' htrailing hblanks =>
    have hstop := @stops_isWordChar_of_isBlanks gap
      (operand ++ (between ++ (trailing ++ blanks))) hgap hne
    have hthird := @stops_isWordChar_of_isBlanks between (trailing ++ blanks) hbetween hne'
    obtain ⟨hblank, hunlabelled⟩ := starts_of_isMnemonic hword hstop
    obtain ⟨c, hc, hnext⟩ := hlabel.readLabel_eq hblank (fun _ => hunlabelled) 0
    rw [Nat.zero_add] at hnext
    have hoperation := readOperation_of_isMnemonic hnext hword hgap hoperand.2 hstop
      hoperand.stops_isBlank hthird
    have hlast : Cursor.skipBlanks ⟨utf8Width front + utf8Width word + utf8Width gap +
        utf8Width operand, between ++ (trailing ++ blanks)⟩ = _ :=
      Cursor.skipBlanks_append hbetween htrailing.stops_isBlank _
    simp only [hc, hoperation, htrailing.readComment_eq hblanks hlast, bind, Except.bind]

/-! ### Every text has a form -/

/-- A text without a blank at its start is over, starts a comment, or starts like
    a word. -/
theorem comment_or_word {cs : List Char} (h : Stops isBlank cs) :
    (∃ comment, CommentPart cs comment) ∨ ∃ c, cs.head? = some c ∧ isWordChar c := by
  cases cs with
  | nil => exact .inl ⟨none, .absent⟩
  | cons c cs =>
    rw [stops_cons_iff] at h
    rcases eq_or_ne c ';' with rfl | hne
    · exact .inl ⟨_, .present⟩
    · exact .inr ⟨c, rfl, by simp [isWordChar, h, hne]⟩

/-- A text that starts like a word is trailing text with blanks behind it. -/
theorem exists_isTrailing {cs : List Char} {c : Char} (hc : cs.head? = some c)
    (hstart : isWordChar c) :
    ∃ trailing blanks, cs = trailing ++ blanks ∧ IsTrailing trailing ∧ IsBlanks blanks := by
  obtain ⟨blanks, htrim, hblanks⟩ := exists_eq_trimEnd_append cs
  have hne : trimEnd cs ≠ [] := by
    intro hnil
    rw [hnil, List.nil_append] at htrim
    rw [htrim] at hc
    have hblank := isBlank_of_isWordChar hstart
    rw [hblanks c (List.mem_of_head? hc)] at hblank
    exact Bool.noConfusion hblank
  refine ⟨trimEnd cs, blanks, htrim, ⟨⟨c, ?_, hstart⟩, ?_⟩, hblanks⟩
  · rwa [htrim, List.head?_append_of_ne_nil _ hne] at hc
  · exact ⟨(trimEnd cs).getLast hne, List.getLast?_eq_some_getLast hne,
      Bool.eq_false_iff.mpr (List.rdropWhile_last_not isBlank cs hne)⟩

/-- Behind an operand there is a comment, or text that should not be there. -/
theorem exists_readsAs_of_operand {front : List Char} {label : Option String}
    (hlabel : LabelPart front label) (hword : isMnemonic word) (hgap : IsBlanks gap)
    (hne : gap ≠ []) (hoperand : IsWord isWordChar operand) (hrest : Stops isWordChar rest) :
    ∃ result, ReadsAs (front ++ (word ++ (gap ++ (operand ++ rest)))) result := by
  obtain ⟨between, tail, rfl, hbetween, htail⟩ := exists_split isBlank rest
  rcases comment_or_word htail with ⟨comment, hcomment⟩ | ⟨c, hc, hstart⟩
  · have hfields := ReadsAs.fields hlabel (.full hword hgap hne hoperand hbetween) hcomment
    simp only [List.append_assoc] at hfields
    exact ⟨_, hfields⟩
  · -- a word that followed at once would belong to the operand
    have hne' : between ≠ [] := hrest.ne_nil hc hstart
    obtain ⟨trailing, blanks, rfl, htrailing, hblanks⟩ := exists_isTrailing hc hstart
    exact ⟨_, .trailingText hlabel hword hgap hne hoperand hbetween hne' htrailing hblanks⟩

/-- Behind the label part there is a comment, an operation, or a word that is no
    mnemonic. -/
theorem exists_readsAs_of_labelPart {front cs : List Char} {label : Option String}
    (hlabel : LabelPart front label) (hstart : Stops isBlank cs)
    (hunlabelled : label = none → Unlabelled cs) : ∃ result, ReadsAs (front ++ cs) result := by
  rcases comment_or_word hstart with ⟨comment, hcomment⟩ | ⟨c, hc, hfirst⟩
  · exact ⟨_, .fields hlabel .absent hcomment⟩
  obtain ⟨word, rest, rfl, hword, hrest⟩ := exists_isWord hc hfirst
  by_cases hmnemonic : isMnemonic word
  · obtain ⟨gap, more, rfl, hgap, hmore⟩ := exists_split isBlank rest
    rcases comment_or_word hmore with ⟨comment, hcomment⟩ | ⟨d, hd, hsecond⟩
    · have hfields := ReadsAs.fields hlabel (.bare hmnemonic hgap) hcomment
      rw [List.append_assoc] at hfields
      exact ⟨_, hfields⟩
    · have hne : gap ≠ [] := hrest.ne_nil hd hsecond
      obtain ⟨operand, tail, rfl, hoperand, htail⟩ := exists_isWord hd hsecond
      exact exists_readsAs_of_operand hlabel hmnemonic hgap hne hoperand htail
  · -- without a label the word has no colon
    have hcolon : label = none → ':' ∉ word := by
      intro hnone
      obtain ⟨other, tail, heq, hother, htail⟩ := hunlabelled hnone
      have hsame : word = other := by
        rw [← Cursor.run_append hword.2 hrest 0, heq,
          Cursor.run_append (fun c hc => isWordChar_of_isLabelChar (hother c hc)) htail]
      intro hmem
      exact absurd (hother ':' (hsame ▸ hmem)) (by decide)
    exact ⟨_, .invalidMnemonic hlabel hword hmnemonic hcolon hrest⟩

/-- **Every text has a form.** -/
theorem exists_readsAs (cs : List Char) : ∃ result, ReadsAs cs result := by
  obtain ⟨blanks, cs, rfl, hblanks, hstart⟩ := exists_split isBlank cs
  obtain ⟨word, rest, rfl, hword, hrest⟩ := exists_split isLabelChar cs
  by_cases hcolon : rest.head? = some ':'
  · obtain ⟨rest, rfl⟩ := List.head?_eq_some_iff.mp hcolon
    rcases eq_or_ne word [] with rfl | hne
    · exact ⟨_, .emptyLabel hblanks⟩
    by_cases hall : word.all Char.isAlphanum
    · obtain ⟨more, cs, rfl, hmore, hstart'⟩ := exists_split isBlank rest
      have hlabel : LabelPart (blanks ++ (word ++ ':' :: more)) (some (.ofList word)) := by
        have hpart := @LabelPart.present blanks more (.ofList word) hblanks
          ⟨by simpa using hne, by simpa using hall⟩ hmore
        rwa [String.toList_ofList] at hpart
      obtain ⟨result, hresult⟩ := exists_readsAs_of_labelPart hlabel hstart' (by simp)
      simp only [List.append_assoc, List.cons_append] at hresult
      exact ⟨result, hresult⟩
    · exact ⟨_, .invalidLabel hblanks ⟨hne, hword⟩ hall⟩
  · have hrest' : Stops isWordChar rest := by
      intro c hc
      have hne : c ≠ ':' := fun heq => hcolon (heq ▸ hc)
      simpa [isLabelChar, hne] using hrest c hc
    exact exists_readsAs_of_labelPart (.absent hblanks) hstart
      fun _ => ⟨word, rest, rfl, hword, hrest'⟩

/-- **Reading follows the grammar**, for every text and whatever comes of it. -/
theorem read_eq_iff {text : String} {result : Except FieldError Fields} :
    read text = result ↔ ReadsAs text.toList result := by
  constructor
  · intro h
    obtain ⟨other, hother⟩ := exists_readsAs text.toList
    rwa [← h, read_of_readsAs hother]
  · exact read_of_readsAs

/-! ### The leading label -/

/-- A word that a colon ends is the leading label if it is a label at all. -/
theorem leadingLabel_of_colon {text : String} (htext : text.toList = blanks ++ (word ++ ':' :: rest))
    (hblanks : IsBlanks blanks) (hword : ∀ c ∈ word, isLabelChar c) :
    leadingLabel text =
      if word ≠ [] ∧ word.all Char.isAlphanum then some (.ofList word) else none := by
  have hcolon : Stops isLabelChar (':' :: rest) := stops_cons_iff.mpr (by decide)
  unfold leadingLabel Cursor.start
  rw [htext]
  simp only [Cursor.skipBlanks_append hblanks (stops_isBlank_of_colon hword),
    Cursor.skip_append hword hcolon, Cursor.run_append hword hcolon, List.head?_cons, true_and]
  unfold checkLabel
  by_cases hempty : word = []
  · simp [hempty, Except.isOk, Except.toBool]
  · by_cases hall : word.all Char.isAlphanum <;> simp [hempty, hall, Except.isOk, Except.toBool]

/-- A word that something else ends is not. -/
theorem leadingLabel_of_stops {text : String} (htext : text.toList = blanks ++ (word ++ rest))
    (hblanks : IsBlanks blanks) (hfirst : Stops isBlank (word ++ rest))
    (hword : ∀ c ∈ word, isLabelChar c) (hstop : Stops isLabelChar rest)
    (hcolon : rest.head? ≠ some ':') : leadingLabel text = none := by
  unfold leadingLabel Cursor.start
  rw [htext]
  simp only [Cursor.skipBlanks_append hblanks hfirst, Cursor.skip_append hword hstop]
  rw [if_neg fun h => hcolon h.1]

/-- The label that a line starts with is a word of letters and digits that
    nothing but blanks precede and a colon ends, whatever stands behind it. -/
theorem leadingLabel_eq_some_iff {text label : String} :
    leadingLabel text = some label ↔
      ∃ blanks rest, text.toList = blanks ++ (label.toList ++ ':' :: rest) ∧ IsBlanks blanks ∧
        IsLabel label := by
  constructor
  · intro h
    obtain ⟨blanks, cs, htext, hblanks, hstart⟩ := exists_split isBlank text.toList
    obtain ⟨word, rest, rfl, hword, hrest⟩ := exists_split isLabelChar cs
    by_cases hcolon : rest.head? = some ':'
    · obtain ⟨rest, rfl⟩ := List.head?_eq_some_iff.mp hcolon
      rw [leadingLabel_of_colon htext hblanks hword] at h
      split at h
      · next hlabel =>
        rw [← Option.some.inj h]
        refine ⟨blanks, rest, by rw [htext, String.toList_ofList], hblanks, ?_⟩
        rwa [IsLabel, String.toList_ofList]
      · simp at h
    · rw [leadingLabel_of_stops htext hblanks hstart hword hrest hcolon] at h
      simp at h
  · intro ⟨blanks, rest, htext, hblanks, hlabel⟩
    obtain ⟨hne, hall⟩ := hlabel
    rw [leadingLabel_of_colon htext hblanks (isLabelChar_of_isLabel ⟨hne, hall⟩),
      if_pos ⟨hne, hall⟩, String.ofList_toList]

end Fields

end Mos6502
