import Mos6502.Proofs.LineText

/-! # The First Offending Part of a Line

    A line that does not split into its fields is reported for its first part
    that is not what it should be. Which part this is can be said without a
    grammar, by scanning the line from the left (`FieldFault.Offends`): a first
    word that a colon ends has to be a label, the next word has to be a
    mnemonic if there is one, and behind the word in the place of the operand
    only a comment may stand. Reading reports exactly this part, in the column
    in which it starts (`read_eq_error_iff_offends`).

    The proof does not follow the reader once more. What a text looks like is
    said by the grammar of lines, and that is enough to scan it
    (`ReadsAs.pointsAt`, `ReadsAs.not_offends`). As at most one part of a line
    offends (`FieldFault.Offends.unique`), scanning finds what reading reports.

    Before any of that, a line may start with a label and a colon. Such a label
    is found without reading on, and it is the one that reading finds if nothing
    offends (`leadingLabel_agrees_with_read`).
-/

namespace Mos6502

open Text

namespace Text

/-! ### Words at the start of a text -/

variable {accept : Char → Bool} {word rest blanks : List Char}

theorem takeWhile_append (hword : ∀ c ∈ word, accept c) (hrest : Stops accept rest) :
    (word ++ rest).takeWhile accept = word :=
  Cursor.run_append hword hrest 0

theorem dropWhile_append (hword : ∀ c ∈ word, accept c) (hrest : Stops accept rest) :
    (word ++ rest).dropWhile accept = rest :=
  congrArg Cursor.rest (Cursor.skip_append hword hrest 0)

theorem trimStart_append (hblanks : IsBlanks blanks) (hrest : Stops isBlank rest) :
    trimStart (blanks ++ rest) = rest :=
  dropWhile_append hblanks hrest

end Text

namespace Fields

/-! ### Scanning a line -/

/-- The first word of a line: the longest run of characters other than blanks,
    semicolons and colons behind the blanks that the line starts with. -/
def firstWord (cs : List Char) : List Char := (trimStart cs).takeWhile isLabelChar

/-- The line behind its first word. -/
def behindFirstWord (cs : List Char) : List Char := (trimStart cs).dropWhile isLabelChar

/-- The first word is ended by a colon. So it stands in the place of a label. -/
def HasColon (cs : List Char) : Prop := (behindFirstWord cs).head? = some ':'

/-- The line from the place of the mnemonic on. A label and the blanks behind its
    colon come before that place. -/
def fromMnemonic (cs : List Char) : List Char :=
  match behindFirstWord cs with
  | ':' :: rest => trimStart rest
  | _ => trimStart cs

/-- The word in the place of the mnemonic. Behind a label, it may hold colons. -/
def mnemonicWord (cs : List Char) : List Char :=
  match behindFirstWord cs with
  | ':' :: rest => (trimStart rest).takeWhile isWordChar
  | _ => firstWord cs

/-- What stands behind a word and the blanks that follow it. -/
def behindWord (cs : List Char) : List Char := trimStart (cs.dropWhile isWordChar)

/-- The line behind the words in the places of the mnemonic and of the
    operand. -/
def behindOperand (cs : List Char) : List Char := behindWord (behindWord (fromMnemonic cs))

/-- There is no label, or it is a word of ASCII letters and digits. -/
def LabelFits (cs : List Char) : Prop :=
  HasColon cs → firstWord cs ≠ [] ∧ ∀ c ∈ firstWord cs, c.isAlphanum

/-- The word in the place of the mnemonic is three ASCII letters. -/
def MnemonicFits (cs : List Char) : Prop :=
  (mnemonicWord cs).length = 3 ∧ ∀ c ∈ mnemonicWord cs, c.isAlpha

end Fields

namespace FieldFault

open Fields

/-- **The first offending part** of a line, whatever comes behind it: a label
    that is empty or no word of letters and digits, else a word that is no
    mnemonic, else text in the place of the comment. -/
def Offends (cs : List Char) : FieldFault → Prop
  | emptyLabel => HasColon cs ∧ firstWord cs = []
  | invalidLabel label =>
    HasColon cs ∧ firstWord cs ≠ [] ∧ (∃ c ∈ firstWord cs, ¬ c.isAlphanum) ∧
      label.toList = firstWord cs
  | invalidMnemonic word =>
    LabelFits cs ∧ mnemonicWord cs ≠ [] ∧ ¬ MnemonicFits cs ∧ word.toList = mnemonicWord cs
  | trailingText text =>
    LabelFits cs ∧ MnemonicFits cs ∧ (∃ c, (behindOperand cs).head? = some c ∧ c ≠ ';') ∧
      text.toList = trimEnd (behindOperand cs)

/-- The line from the offending part on. -/
def place (cs : List Char) : FieldFault → List Char
  | emptyLabel | invalidLabel _ => trimStart cs
  | invalidMnemonic _ => fromMnemonic cs
  | trailingText _ => behindOperand cs

/-- What the offending part starts with: the text that the fault shows, or the
    colon that has no label. -/
def token : FieldFault → List Char
  | emptyLabel => [':']
  | invalidLabel text | invalidMnemonic text | trailingText text => text.toList

/-- **At most one part offends.** -/
theorem Offends.unique {cs : List Char} {fault other : FieldFault} (h : fault.Offends cs)
    (h' : other.Offends cs) : fault = other := by
  -- a label that does not fit offends alone, and then a mnemonic does
  cases fault with
  | emptyLabel =>
    obtain ⟨hcolon, hempty⟩ := h
    cases other with
    | emptyLabel => rfl
    | invalidLabel => exact absurd hempty h'.2.1
    | invalidMnemonic | trailingText => exact absurd hempty (h'.1 hcolon).1
  | invalidLabel label =>
    obtain ⟨hcolon, hne, ⟨c, hc, hinvalid⟩, hlabel⟩ := h
    cases other with
    | emptyLabel => exact absurd h'.2 hne
    | invalidLabel other => rw [String.toList_inj.mp (hlabel.trans h'.2.2.2.symm)]
    | invalidMnemonic | trailingText => exact absurd ((h'.1 hcolon).2 c hc) hinvalid
  | invalidMnemonic word =>
    obtain ⟨hfits, -, hinvalid, hword⟩ := h
    cases other with
    | emptyLabel => exact absurd h'.2 (hfits h'.1).1
    | invalidLabel =>
      obtain ⟨hcolon, -, ⟨c, hc, hbad⟩, -⟩ := h'
      exact absurd ((hfits hcolon).2 c hc) hbad
    | invalidMnemonic other => rw [String.toList_inj.mp (hword.trans h'.2.2.2.symm)]
    | trailingText => exact absurd h'.2.1 hinvalid
  | trailingText text =>
    obtain ⟨hfits, hmnemonic, -, htext⟩ := h
    cases other with
    | emptyLabel => exact absurd h'.2 (hfits h'.1).1
    | invalidLabel =>
      obtain ⟨hcolon, -, ⟨c, hc, hbad⟩, -⟩ := h'
      exact absurd ((hfits hcolon).2 c hc) hbad
    | invalidMnemonic => exact absurd hmnemonic h'.2.2.1
    | trailingText other => rw [String.toList_inj.mp (htext.trans h'.2.2.2.symm)]

end FieldFault

namespace Fields

variable {front middle rest blanks word gap cs : List Char} {label : Option String}

/-! ### Scanning what the grammar says -/

/-- A word that a colon ends is the first one of its line. -/
theorem firstWord_of_colon (hblanks : IsBlanks blanks) (hword : ∀ c ∈ word, isLabelChar c) :
    trimStart (blanks ++ (word ++ ':' :: rest)) = word ++ ':' :: rest ∧
      firstWord (blanks ++ (word ++ ':' :: rest)) = word ∧
      behindFirstWord (blanks ++ (word ++ ':' :: rest)) = ':' :: rest := by
  have htrim := trimStart_append hblanks (@stops_isBlank_of_colon rest word hword)
  have hcolon : Stops isLabelChar (':' :: rest) := stops_cons_iff.mpr (by decide)
  unfold firstWord behindFirstWord
  rw [htrim]
  exact ⟨rfl, takeWhile_append hword hcolon, dropWhile_append hword hcolon⟩

/-- Behind a label part, the line goes on at the place of the mnemonic. -/
theorem LabelPart.fromMnemonic_eq (h : LabelPart front label) (hrest : Stops isBlank rest)
    (hunlabelled : label = none → Unlabelled rest) :
    LabelFits (front ++ rest) ∧ fromMnemonic (front ++ rest) = rest ∧
      mnemonicWord (front ++ rest) = rest.takeWhile isWordChar := by
  unfold LabelFits HasColon fromMnemonic mnemonicWord
  cases h with
  | absent hblanks =>
    -- the first word stops, but not at a colon, so it is not one of a label
    obtain ⟨word, tail, rfl, hword, htail⟩ := hunlabelled rfl
    have htrim := trimStart_append hblanks hrest
    have hfirst : firstWord (front ++ (word ++ tail)) = word := by
      rw [firstWord, htrim, takeWhile_append hword (stops_isLabelChar htail)]
    have hbehind : behindFirstWord (front ++ (word ++ tail)) = tail := by
      rw [behindFirstWord, htrim, dropWhile_append hword (stops_isLabelChar htail)]
    have hcolon : tail.head? ≠ some ':' := fun h => absurd (htail ':' h) (by decide)
    have hsame := takeWhile_append (fun c hc => isWordChar_of_isLabelChar (hword c hc)) htail
    rw [hfirst, hbehind, htrim, hsame]
    refine ⟨fun h => absurd h hcolon, ?_⟩
    split
    · next heq => exact absurd rfl hcolon
    · exact ⟨rfl, rfl⟩
  | @present blanks more label hblanks hlabel hmore =>
    obtain ⟨-, hfirst, hbehind⟩ :=
      @firstWord_of_colon (more ++ rest) blanks _ hblanks (isLabelChar_of_isLabel hlabel)
    rw [List.append_assoc, List.append_assoc, List.cons_append, hfirst, hbehind]
    refine ⟨fun _ => ⟨hlabel.1, List.all_eq_true.mp hlabel.2⟩, ?_⟩
    show trimStart (more ++ rest) = rest ∧ (trimStart (more ++ rest)).takeWhile isWordChar = _
    rw [trimStart_append hmore hrest]
    exact ⟨rfl, rfl⟩

theorem behindWord_append (hword : ∀ c ∈ word, isWordChar c) (hgap : IsBlanks gap)
    (hstop : Stops isWordChar (gap ++ rest)) (hrest : Stops isBlank rest) :
    behindWord (word ++ (gap ++ rest)) = rest := by
  rw [behindWord, dropWhile_append hword hstop, trimStart_append hgap hrest]

theorem behindWord_eq_self (hstop : Stops isWordChar rest) (hrest : Stops isBlank rest) :
    behindWord rest = rest :=
  @behindWord_append rest [] [] (by simp) isBlanks_nil hstop hrest

/-- An operation part has at most a mnemonic in its place, and it is scanned up to
    its end. -/
theorem OperationPart.behindWord_eq {column : Nat} {operation : Option Operation}
    (h : OperationPart column middle operation) (hblank : Stops isBlank rest)
    (hrest : Stops isWordChar rest) :
    ((middle ++ rest).takeWhile isWordChar = [] ∨
        isMnemonic ((middle ++ rest).takeWhile isWordChar)) ∧
      behindWord (behindWord (middle ++ rest)) = rest := by
  cases h with
  | absent =>
    have hnone := @takeWhile_append isWordChar [] rest (by simp) hrest
    rw [List.nil_append] at hnone ⊢
    rw [behindWord_eq_self hrest hblank, behindWord_eq_self hrest hblank]
    exact ⟨.inl hnone, rfl⟩
  | @bare word blanks hword hblanks =>
    have hfirst := (isWord_of_isMnemonic hword).of_isLabelChar.2
    have hstop := stops_isWordChar_append hblanks hrest
    rw [List.append_assoc, takeWhile_append hfirst hstop,
      behindWord_append hfirst hblanks hstop hblank, behindWord_eq_self hrest hblank]
    exact ⟨.inr hword, rfl⟩
  | @full word gap operand blanks hword hgap hne hoperand hblanks =>
    have hfirst := (isWord_of_isMnemonic hword).of_isLabelChar.2
    have hstop : Stops isWordChar (gap ++ (operand ++ (blanks ++ rest))) :=
      stops_isWordChar_of_isBlanks hgap hne
    have hthird := stops_isWordChar_append hblanks hrest
    simp only [List.append_assoc]
    rw [takeWhile_append hfirst hstop, behindWord_append hfirst hgap hstop hoperand.stops_isBlank,
      behindWord_append hoperand.2 hblanks hthird hblank]
    exact ⟨.inr hword, rfl⟩

/-- **No part of a well-formed line offends.** -/
theorem ReadsAs.not_offends {fields : Fields} (h : ReadsAs cs (.ok fields)) (fault : FieldFault) :
    ¬ fault.Offends cs := by
  cases h with
  | @fields front middle tail label comment operation hlabel hoperation hcomment =>
    obtain ⟨hblank, hword⟩ := hcomment.stops
    obtain ⟨⟨hstop, hunlabelled⟩, -⟩ := hoperation.readOperation_eq hblank hword
    obtain ⟨hfits, hfrom, hfirst⟩ := hlabel.fromMnemonic_eq hstop fun _ => hunlabelled
    obtain ⟨hmnemonic, hbehind⟩ := hoperation.behindWord_eq hblank hword
    intro hoffends
    cases fault with
    | emptyLabel => exact (hfits hoffends.1).1 hoffends.2
    | invalidLabel =>
      obtain ⟨hcolon, -, ⟨c, hc, hinvalid⟩, -⟩ := hoffends
      exact hinvalid ((hfits hcolon).2 c hc)
    | invalidMnemonic =>
      obtain ⟨-, hne, hinvalid, -⟩ := hoffends
      rw [MnemonicFits, ← isMnemonic_iff] at hinvalid
      rw [hfirst] at hne hinvalid
      exact hmnemonic.elim hne hinvalid
    | trailingText =>
      obtain ⟨-, -, ⟨c, hc, hne⟩, -⟩ := hoffends
      rw [behindOperand, hfrom, hbehind] at hc
      -- what is left is a comment or nothing
      cases hcomment with
      | absent => simp at hc
      | present => exact hne (Option.some.inj hc).symm

end Fields

/-- **An error that points at the first offending part** of a line. -/
structure FieldError.PointsAt (cs : List Char) (error : FieldError) : Prop where
  /-- The part offends. -/
  offends : error.fault.Offends cs
  /-- It starts in the column, counted in bytes, -/
  column_eq : ∃ front, cs = front ++ error.fault.place cs ∧ utf8Width front = error.column
  /-- with the text that the fault shows. -/
  starts : error.fault.token <+: error.fault.place cs

/-- An error points at an offending part if the part is there in its column. -/
theorem FieldError.PointsAt.of_place (front rest : List Char) {cs : List Char} {error : FieldError}
    (hoffends : error.fault.Offends cs)
    (htext : cs = front ++ (error.fault.token ++ rest))
    (hplace : error.fault.place cs = error.fault.token ++ rest)
    (hcolumn : utf8Width front = error.column) : error.PointsAt cs where
  offends := hoffends
  column_eq := ⟨front, htext.trans (congrArg (front ++ ·) hplace.symm), hcolumn⟩
  starts := ⟨rest, hplace.symm⟩

namespace Fields

variable {cs : List Char}

/-- **A malformed line is reported for its first offending part.** -/
theorem ReadsAs.pointsAt {error : FieldError} (h : ReadsAs cs (.error error)) :
    error.PointsAt cs := by
  cases h with
  | @emptyLabel blanks rest hblanks =>
    obtain ⟨htrim, hfirst, hbehind⟩ := @firstWord_of_colon rest blanks [] hblanks (by simp)
    exact .of_place blanks rest ⟨congrArg List.head? hbehind, hfirst⟩ rfl htrim rfl
  | @invalidLabel blanks word rest hblanks hword hinvalid =>
    obtain ⟨htrim, hfirst, hbehind⟩ := @firstWord_of_colon rest blanks word hblanks hword.2
    have hbad : ∃ c ∈ word, ¬ c.isAlphanum := by simpa using hinvalid
    have hshown : (String.ofList word).toList = word := String.toList_ofList
    refine .of_place blanks (':' :: rest) ⟨congrArg List.head? hbehind, ?_, ?_, ?_⟩ ?_ ?_ rfl
    · rw [hfirst]
      exact hword.1
    · rwa [hfirst]
    · rw [hfirst, hshown]
    · rw [FieldFault.token, hshown]
    · rw [FieldFault.token, hshown]
      exact htrim
  | @invalidMnemonic front word rest label hlabel hword hinvalid hcolon hrest =>
    obtain ⟨hfits, hfrom, hfirst⟩ := hlabel.fromMnemonic_eq hword.stops_isBlank
      fun hnone => unlabelled_of_not_mem hword (hcolon hnone) hrest
    rw [takeWhile_append hword.2 hrest] at hfirst
    have hshown : (String.ofList word).toList = word := String.toList_ofList
    refine .of_place front rest ⟨hfits, ?_, ?_, ?_⟩ ?_ ?_ rfl
    · rw [hfirst]
      exact hword.1
    · rwa [MnemonicFits, ← isMnemonic_iff, hfirst]
    · rw [hfirst, hshown]
    · rw [FieldFault.token, hshown]
    · rw [FieldFault.token, hshown]
      exact hfrom
  | @trailingText front word gap operand between trailing blanks label hlabel hword hgap hne
      hoperand hbetween hne' htrailing hblanks =>
    have hmnemonic := (isWord_of_isMnemonic hword).of_isLabelChar.2
    have hstop := @stops_isWordChar_of_isBlanks gap
      (operand ++ (between ++ (trailing ++ blanks))) hgap hne
    have hthird := @stops_isWordChar_of_isBlanks between (trailing ++ blanks) hbetween hne'
    obtain ⟨hblank, hunlabelled⟩ := starts_of_isMnemonic hword hstop
    obtain ⟨hfits, hfrom, hfirst⟩ := hlabel.fromMnemonic_eq hblank fun _ => hunlabelled
    rw [takeWhile_append hmnemonic hstop] at hfirst
    -- what is left behind the mnemonic and the operand is the trailing text
    have hbehind : behindOperand (front ++ (word ++ (gap ++ (operand ++ (between ++
        (trailing ++ blanks)))))) = trailing ++ blanks := by
      rw [behindOperand, hfrom, behindWord_append hmnemonic hgap hstop hoperand.stops_isBlank,
        behindWord_append hoperand.2 hbetween hthird htrailing.stops_isBlank]
    obtain ⟨c, hc, hstart⟩ := htrailing.starts
    have hshown : (String.ofList trailing).toList = trailing := String.toList_ofList
    refine .of_place (front ++ word ++ gap ++ operand ++ between) blanks
      ⟨hfits, ?_, ⟨c, ?_, ne_semicolon_of_isWordChar hstart⟩, ?_⟩ ?_ ?_ ?_
    · rwa [MnemonicFits, ← isMnemonic_iff, hfirst]
    · rw [hbehind, List.head?_append, hc]
      rfl
    · rw [hbehind, htrailing.trimEnd_append hblanks, hshown]
    · rw [FieldFault.token, hshown]
      simp only [List.append_assoc]
    · rw [FieldFault.token, hshown]
      exact hbehind
    · simp only [utf8Width_append]

/-- **Lines are reported for their first offending part.** A line is refused with
    a fault exactly if the part of the fault is the first one that offends, as it
    is found by scanning the line from the left. The error carries the column in
    which the part starts, in bytes, and there the line shows what the fault
    says. As a diagnostic, it makes the line malformed. -/
theorem read_eq_error_iff_offends (text : String) :
    (∀ fault, (∃ column, read text = .error ⟨column, fault⟩) ↔ fault.Offends text.toList) ∧
    ∀ error, read text = .error error →
      (∃ front, text.toList = front ++ error.fault.place text.toList ∧
        utf8Width front = error.column) ∧
      error.fault.token <+: error.fault.place text.toList ∧
      ∀ n, ∃ d, Statement.read n text = .error d ∧ d.line = n ∧ d.column = error.column ∧
        d.kind = .malformedLine ∧ d.message = error.fault.message := by
  refine ⟨?_, ?_⟩
  · intro fault
    constructor
    · intro ⟨column, hread⟩
      exact (read_eq_iff.mp hread).pointsAt.offends
    · intro hoffends
      -- whatever comes of the line, only this fault can
      obtain ⟨result, hresult⟩ := exists_readsAs text.toList
      cases result with
      | ok fields => exact absurd hoffends (hresult.not_offends fault)
      | error error =>
        rw [hoffends.unique hresult.pointsAt.offends]
        exact ⟨error.column, read_of_readsAs hresult⟩
  · intro error hread
    obtain ⟨-, hcolumn, hstarts⟩ := (read_eq_iff.mp hread).pointsAt
    refine ⟨hcolumn, hstarts, ?_⟩
    intro n
    refine ⟨⟨n, error.column, .fields error.fault⟩, ?_, rfl, rfl, rfl, rfl⟩
    rw [Statement.read, hread]

/-- Behind a label, a word holds its colons: it is not taken for another label,
    but for a mnemonic. -/
theorem read_eq_error_iff_offends_colon :
    (FieldFault.invalidMnemonic "a:b").Offends "\u3000x: a:b;".toList ∧
    ∃ front, "\u3000x: a:b;".toList = front ++ "a:b;".toList ∧ utf8Width front = 6 ∧
      ∃ d, Statement.read 1 "\u3000x: a:b;" = .error d ∧ d.line = 1 ∧ d.column = 6 ∧
        d.kind = .malformedLine ∧
        d.message = "invalid mnemonic 'a:b': expected exactly three letters" := by
  have hread : read "\u3000x: a:b;" = .error ⟨6, .invalidMnemonic "a:b"⟩ := by rfl
  obtain ⟨hiff, herror⟩ := read_eq_error_iff_offends "\u3000x: a:b;"
  obtain ⟨⟨front, htext, hwidth⟩, -, hdiagnostic⟩ := herror _ hread
  have hplace : fromMnemonic "\u3000x: a:b;".toList = "a:b;".toList := by decide
  refine ⟨(hiff _).mp ⟨6, hread⟩, front, ?_, hwidth, hdiagnostic 1⟩
  rw [← hplace]
  exact htext

/-! ### The label that is left -/

theorem ReadsAs.leadingLabel_eq_none {text : String} {column : Nat} {fault : FieldFault}
    (h : ReadsAs text.toList (.error ⟨column, fault⟩))
    (hfault : fault = .emptyLabel ∨ ∃ label, fault = .invalidLabel label) :
    leadingLabel text = none := by
  generalize htext : text.toList = cs at h
  cases h with
  | @emptyLabel blanks rest hblanks =>
    rw [@leadingLabel_of_colon rest blanks [] text htext hblanks (by simp)]
    rfl
  | @invalidLabel blanks word rest hblanks hword hinvalid =>
    rw [leadingLabel_of_colon htext hblanks hword.2, if_neg fun h => hinvalid h.2]
  | invalidMnemonic | trailingText => simp at hfault

/-- **The label of a line does not depend on what is behind it.** A line that can
    be split has the label that it starts with, and a line that is refused for
    its label starts with none. A line starts with a label exactly if it is
    blanks, the label and a colon, whatever follows. Then the label is that of
    its statement if there is one, and what is recovered of the line is the
    statement that the label alone reads as. -/
theorem leadingLabel_agrees_with_read (text : String) :
    (∀ fields, read text = .ok fields → leadingLabel text = fields.label) ∧
    (∀ column, read text = .error ⟨column, .emptyLabel⟩ → leadingLabel text = none) ∧
    (∀ column label, read text = .error ⟨column, .invalidLabel label⟩ →
      leadingLabel text = none) ∧
    (∀ label, leadingLabel text = some label ↔
      ∃ blanks rest, text.toList = blanks ++ (label.toList ++ ':' :: rest) ∧ IsBlanks blanks ∧
        label.toList ≠ [] ∧ ∀ c ∈ label.toList, c.isAlphanum) ∧
    ∀ n label, leadingLabel text = some label →
      (∀ s, Statement.read n text = .ok s → s.label = some label) ∧
      ∃ s, Statement.recover n text = some s ∧ Statement.read n (label ++ ":") = .ok s := by
  refine ⟨?_, ?_, ?_, ?_, ?_⟩
  · intro fields h
    exact (label_of_read h).symm
  · intro column h
    exact (read_eq_iff.mp h).leadingLabel_eq_none (.inl rfl)
  · intro column label h
    exact (read_eq_iff.mp h).leadingLabel_eq_none (.inr ⟨label, rfl⟩)
  · intro label
    simp only [leadingLabel_eq_some_iff, IsLabel, List.all_eq_true]
  · intro n label h
    obtain ⟨-, -, -, -, hlabel⟩ := leadingLabel_eq_some_iff.mp h
    refine ⟨?_, ⟨n, some label, none, none⟩, ?_, Statement.read_label n hlabel⟩
    · intro s hs
      rw [Statement.label_of_read hs, h]
    · rw [Statement.recover, h]
      rfl

/-- The rest of the line is no instruction, and the label is recovered. -/
theorem leadingLabel_agrees_with_read_colon :
    leadingLabel "\u3000x: a:b;" = some "x" ∧
    Statement.recover 5 "\u3000x: a:b;" = some ⟨5, some "x", none, none⟩ ∧
    Statement.read 5 "x:" = .ok ⟨5, some "x", none, none⟩ ∧
    leadingLabel "x_y: NOP" = none ∧ leadingLabel "lda ;x:" = none := by
  obtain ⟨-, -, -, hshape, hrecover⟩ := leadingLabel_agrees_with_read "\u3000x: a:b;"
  have hlabel : leadingLabel "\u3000x: a:b;" = some "x" := by
    refine (hshape "x").mpr ⟨['\u3000'], " a:b;".toList, by decide, ?_, by decide, ?_⟩
    · exact List.all_eq_true.mp (by decide)
    · exact List.all_eq_true.mp (by decide)
  obtain ⟨-, s, hs, hread⟩ := hrecover 5 "x" hlabel
  have hstatement : s = ⟨5, some "x", none, none⟩ := by
    simpa [Statement.recover, hlabel, eq_comm] using hs
  rw [hstatement] at hs hread
  refine ⟨hlabel, hs, hread, ?_, ?_⟩
  · obtain ⟨-, -, hinvalid, -⟩ := leadingLabel_agrees_with_read "x_y: NOP"
    exact hinvalid 0 "x_y" (by rfl)
  · obtain ⟨hok, -⟩ := leadingLabel_agrees_with_read "lda ;x:"
    exact hok ⟨none, some ⟨"LDA", 0, "", 4⟩, some "x:"⟩ (by rfl)

end Fields

end Mos6502
