import Mathlib.Data.List.Induction
import Mos6502.Opcode.Nmos
import Mos6502.Proofs.AddressSpace
import Mos6502.Proofs.Concatenation
import Mos6502.Proofs.Grammar
import Mos6502.Proofs.SymbolHistory

/-! # The Labels of a Source

    A label is defined by the first statement that carries it, at the running
    address in front of the instruction on its line. What decides about the
    label of a statement are thus the statements in front of it: whether one of
    them has the label already (`Statement.carrier?`), and where they end. The
    symbols of a layout and the reports of duplicates are read off every
    statement together with its front (`Statement.withFront`).

    As the running address only grows, all statements in front of one that has
    an address have one as well. So at such a statement the table knows every
    label in front (`line_find?_after`), which is why the table can stand for
    the statements; the rest is one step, and an induction over the statements
    from the back.

    In a program, the instructions that follow a label begin at its address
    (`address_of_mem_symbolsFrom`).
-/

namespace Mos6502

open Text

/-! ### Reports of duplicates -/

/-- Is it reported that a label has been defined before? -/
def Diagnostic.isDuplicate (d : Diagnostic) : Bool :=
  match d.fault with
  | .placement (.duplicateLabel _ _) => true
  | _ => false

theorem PlacementFault.toList_message_duplicateLabel (label : String) (line : Nat) :
    (message (.duplicateLabel label line)).toList =
      "label '".toList ++ label.toList ++ "' already defined on line".toList ++
        ' ' :: Nat.toDigits 10 line := by
  simp [message, toString]

/-- The text of such a report determines the label and the line of the first
    definition. -/
theorem PlacementFault.message_duplicateLabel_inj {label other : String} {line n : Nat} :
    message (.duplicateLabel label line) = message (.duplicateLabel other n) ↔
      label = other ∧ line = n := by
  constructor
  · intro h
    have htext := congrArg (fun text => text.toList.reverse) h
    simp only [toList_message_duplicateLabel, List.reverse_append, List.reverse_cons,
      List.append_assoc, List.singleton_append] at htext
    -- the number is the longest run of digits at the end
    have hdigits : ∀ k, ∀ c ∈ (Nat.toDigits 10 k).reverse, c.isDigit := by
      intro k c hc
      exact Nat.isDigit_of_mem_toDigits (by decide) (by decide) (List.mem_reverse.mp hc)
    have hstops : ∀ rest, Stops Char.isDigit (' ' :: rest) :=
      fun rest => stops_cons_iff.mpr (by decide)
    obtain ⟨hline, hfront⟩ := split_unique htext (hdigits line) (hstops _) (hdigits n) (hstops _)
    refine ⟨?_, ?_⟩
    · exact String.toList_inj.mp (by simpa using hfront)
    · apply Nat.repr_injective
      exact congrArg String.ofList (List.reverse_inj.mp hline)
  · rintro ⟨rfl, rfl⟩
    rfl

/-! ### Symbols and statements -/

namespace SymbolTable

theorem find?_eq_some_iff {table : SymbolTable} {name : String} {symbol : Symbol} :
    table.find? name = some symbol ↔ symbol ∈ table.symbols ∧ symbol.name = name := by
  constructor
  · intro h
    exact ⟨List.mem_of_find?_eq_some h, by simpa using List.find?_some h⟩
  · rintro ⟨hmem, rfl⟩
    cases hfind : table.find? symbol.name with
    | none => exact absurd (List.mem_map_of_mem hmem) (find?_eq_none_iff.mp hfind)
    | some other =>
      -- no other symbol has the name
      have hname : other.name = symbol.name := by simpa using List.find?_some hfind
      rw [List.inj_on_of_nodup_map table.distinct (List.mem_of_find?_eq_some hfind) hmem hname]

end SymbolTable

namespace Statement

variable {table : InstructionSet}

/-! ### A statement and its front -/

/-- What the statements give one by one, each together with those in front of
    it. -/
def withFront {α : Type} (f : List Statement → Statement → Option α)
    (statements : List Statement) : List α :=
  statements.zipIdx.filterMap fun (s, i) => f (statements.take i) s

/-- One more statement gives one thing more, and the fronts of the others stay
    as they are. -/
theorem withFront_concat {α : Type} (f : List Statement → Statement → Option α)
    (statements : List Statement) (s : Statement) :
    withFront f (statements ++ [s]) = withFront f statements ++ (f statements s).toList :=
  filterMap_take_concat f statements s

/-- The first statement that carries a label. -/
def carrier? (statements : List Statement) (name : String) : Option Statement :=
  statements.find? fun s => s.label = some name

/-- The symbol that a statement defines behind others: its label, if none of them
    carries it and the address behind them has sixteen bits, at this address. -/
def newSymbol? (table : InstructionSet) (origin : Nat) (front : List Statement) (s : Statement) :
    Option Symbol :=
  s.label.bind fun name =>
    if carrier? front name = none ∧ addressAfter table origin front ≤ 0xFFFF then
      some ⟨name, .ofNat (addressAfter table origin front), s.line⟩
    else none

/-- What is reported of a statement whose label one of the statements in front
    carries already, if the address behind them has sixteen bits. -/
def duplicate? (table : InstructionSet) (origin : Nat) (front : List Statement) (s : Statement) :
    Option Diagnostic :=
  s.label.bind fun name =>
    (carrier? front name).bind fun first =>
      if addressAfter table origin front ≤ 0xFFFF then
        some ⟨s.line, 0, .placement (.duplicateLabel name first.line)⟩
      else none

/-- A label is carried first by a statement in front or else by the last one. -/
theorem carrier?_concat (statements : List Statement) (s : Statement) (name : String) :
    carrier? (statements ++ [s]) name =
      (carrier? statements name).or (if s.label = some name then some s else none) := by
  unfold carrier?
  rw [List.find?_append]
  by_cases hs : s.label = some name <;> simp [hs]

theorem addressAfter_concat (origin : Nat) (statements : List Statement) (s : Statement) :
    addressAfter table origin (statements ++ [s]) =
      addressAfter table origin statements + s.room table := by
  simp [addressAfter, Nat.add_assoc]

theorem toNat_address_of_newSymbol? {origin : Nat} {front : List Statement} {s : Statement}
    {symbol : Symbol} (h : newSymbol? table origin front s = some symbol) :
    symbol.address.toNat = addressAfter table origin front := by
  unfold newSymbol? at h
  obtain ⟨name, -, hsymbol⟩ := Option.bind_eq_some_iff.mp h
  split at hsymbol
  · next hin =>
    obtain rfl := Option.some.inj hsymbol
    exact Nat.mod_eq_of_lt (Nat.lt_succ_of_le hin.2)
  · simp at hsymbol

theorem pairwise_address_withFront (table : InstructionSet) (origin : Nat)
    (statements : List Statement) :
    (withFront (newSymbol? table origin) statements).Pairwise
        (fun a b => a.address ≤ b.address) ∧
      ∀ symbol ∈ withFront (newSymbol? table origin) statements,
        origin ≤ symbol.address.toNat ∧
          symbol.address.toNat ≤ addressAfter table origin statements := by
  induction statements using List.reverseRecOn with
  | nil => exact ⟨.nil, by simp [withFront]⟩
  | append_singleton statements s ih =>
    obtain ⟨hpairwise, hbounds⟩ := ih
    have hlast : ∀ symbol ∈ (newSymbol? table origin statements s).toList,
        symbol.address.toNat = addressAfter table origin statements := by
      intro symbol hsymbol
      exact toNat_address_of_newSymbol? (Option.mem_toList.mp hsymbol)
    rw [withFront_concat, addressAfter_concat]
    refine ⟨List.pairwise_append.mpr ⟨hpairwise, ?_, ?_⟩, ?_⟩
    · cases newSymbol? table origin statements s <;> simp
    · intro a ha b hb
      rw [UInt16.le_iff_toNat_le, hlast b hb]
      exact (hbounds a ha).2
    · intro symbol hsymbol
      rcases List.mem_append.mp hsymbol with hsymbol | hsymbol
      · have hle := hbounds symbol hsymbol
        omega
      · have hstart : origin ≤ addressAfter table origin statements := Nat.le_add_right _ _
        rw [hlast symbol hsymbol]
        omega

end Statement

namespace Layout

open Statement

variable {table : InstructionSet} {origin : UInt16}

/-! ### What a statement adds to the symbols -/

theorem filter_isDuplicate_afterInstruction (table : InstructionSet) (state : State)
    (s : Statement) :
    (state.afterInstruction table s).2.diagnostics.filter Diagnostic.isDuplicate = [] := by
  unfold State.afterInstruction
  cases s.instruction with
  | none => rfl
  | some instruction =>
    rcases placeInstruction_cases table state s.line instruction with
      ⟨fault, hfault, h⟩ | ⟨opcode, placed, -, -, -, h⟩ | ⟨opcode, -, -, -, h⟩ | ⟨opcode, -, -, -, h⟩
    · -- a look-up or a field is at fault
      rcases opcodeOf_eq_error_iff.mp hfault with ⟨cause, -, rfl⟩ | ⟨opcode, -, -, rfl⟩ <;>
        simp [h, Diagnostic.isDuplicate]
    all_goals simp [h, Diagnostic.isDuplicate]

theorem after_concat (table : InstructionSet) (state : State) (statements : List Statement)
    (s : Statement) :
    state.after table (statements ++ [s]) =
      ((state.after table statements).place table s).1 :=
  after_append table state statements [s]

theorem afterLabel_of_none {state : State} {s : Statement} (hs : s.label = none) :
    state.afterLabel s = (state, []) := by
  rw [State.afterLabel, hs]

theorem afterLabel_of_some {state : State} {s : Statement} {name : String}
    (hs : s.label = some name) : state.afterLabel s = state.placeLabel s.line name := by
  rw [State.afterLabel, hs]

theorem filter_isDuplicate_place (table : InstructionSet) (state : State) (s : Statement) :
    (state.place table s).2.diagnostics.filter Diagnostic.isDuplicate =
      (state.afterLabel s).2.filter Diagnostic.isDuplicate := by
  rw [place_eq]
  show List.filter _ (_ ++ _) = _
  rw [List.filter_append, filter_isDuplicate_afterInstruction, List.append_nil]

/-- As long as the running address has sixteen bits, the symbols are the labels
    of the statements so far, each with the line of its first carrier. -/
theorem line_find?_after (statements : List Statement)
    (h : addressAfter table origin.toNat statements ≤ 0xFFFF) (name : String) :
    (((State.start origin).after table statements).symbols.find? name).map Symbol.line =
      (carrier? statements name).map Statement.line := by
  induction statements using List.reverseRecOn with
  | nil => rfl
  | append_singleton statements s ih =>
    rw [addressAfter_concat] at h
    have hknown := ih (by omega)
    have haddress := address_after table (.start origin) statements
    rw [after_concat, symbols_place, carrier?_concat]
    generalize (State.start origin).after table statements = state at hknown haddress ⊢
    cases hs : s.label with
    | none => simpa [afterLabel_of_none hs] using hknown
    | some own =>
      rw [afterLabel_of_some hs]
      -- the address behind the statement has sixteen bits, so the one before has
      have hin : state.address < addressSpaceEnd := by
        rw [haddress]
        exact Nat.lt_succ_of_le (Nat.le_trans (Nat.le_add_right _ _) h)
      rcases placeLabel_cases state s.line own with
        ⟨-, hnew, hplace⟩ | ⟨-, first, hfirst, hplace⟩ | ⟨hout, -, -⟩ | ⟨hout, -, -⟩
      · rw [hplace, SymbolTable.find?_insertIfNew_of_find?_eq_none hnew, Option.map_or, hknown,
          Option.map_or]
        by_cases hown : own = name <;> simp [hown]
      · rw [hplace, Option.map_or, hknown]
        by_cases hown : own = name
        · -- the label has a carrier in front, which stays the first
          subst hown
          rw [hfirst] at hknown
          rw [← hknown]
          rfl
        · simp [hown]
      · exact absurd hin (Nat.not_lt.mpr hout)
      · exact absurd hin (Nat.not_lt.mpr hout)

/-- **Step**: behind other statements, a statement adds its symbol or reports a
    duplicate, as its front decides. -/
theorem place_after_start (table : InstructionSet) (origin : UInt16) (front : List Statement)
    (s : Statement) :
    ((State.start origin).after table (front ++ [s])).symbols.symbols =
        ((State.start origin).after table front).symbols.symbols ++
          (newSymbol? table origin.toNat front s).toList ∧
      (((State.start origin).after table front).place table s).2.diagnostics.filter
          Diagnostic.isDuplicate = (duplicate? table origin.toNat front s).toList := by
  have hlines := @line_find?_after table origin front
  have haddress : ((State.start origin).after table front).address =
      addressAfter table origin.toNat front := address_after table _ front
  rw [after_concat, symbols_place, filter_isDuplicate_place]
  unfold newSymbol? duplicate?
  -- the front counts only by its address and its carriers, which the state knows
  rw [← haddress] at hlines ⊢
  generalize (State.start origin).after table front = state at hlines ⊢
  cases hs : s.label with
  | none => simp [afterLabel_of_none hs]
  | some name =>
    rw [afterLabel_of_some hs]
    rcases placeLabel_cases state s.line name with
      ⟨hin, hnew, hplace⟩ | ⟨hin, first, hfirst, hplace⟩ | ⟨hout, -, hplace⟩ | ⟨hout, -, hplace⟩
    · -- the label has no carrier in front
      have hle : state.address ≤ 0xFFFF := Nat.le_of_lt_succ hin
      have hcarrier : carrier? front name = none := by
        simpa [hnew, eq_comm] using hlines hle name
      have hinsert : (state.symbols.insertIfNew ⟨name, .ofNat state.address, s.line⟩).symbols =
          state.symbols.symbols ++ [⟨name, .ofNat state.address, s.line⟩] :=
        SymbolTable.symbols_insertIfNew_of_find?_eq_none hnew
      rw [hplace]
      simp [hcarrier, hle, hinsert]
    · -- its carrier in front stands on the line of the symbol
      have hle : state.address ≤ 0xFFFF := Nat.le_of_lt_succ hin
      have hline := hlines hle name
      rw [hfirst] at hline
      obtain ⟨carrier, hcarrier, hfirstLine⟩ := Option.map_eq_some_iff.mp hline.symm
      rw [hplace]
      simp [hcarrier, hle, hfirstLine, Diagnostic.isDuplicate]
    -- without an address, the label does not come to the table
    all_goals
      have hle : ¬ state.address ≤ 0xFFFF := Nat.not_le.mpr hout
      rw [hplace]
      simp [hle, Diagnostic.isDuplicate]

/-- **Run**: the symbols are those of the statements, each with its front. -/
theorem symbols_after_start (table : InstructionSet) (origin : UInt16)
    (statements : List Statement) :
    ((State.start origin).after table statements).symbols.symbols =
      withFront (newSymbol? table origin.toNat) statements := by
  induction statements using List.reverseRecOn with
  | nil => rfl
  | append_singleton statements s ih =>
    rw [(place_after_start table origin statements s).1, ih, withFront_concat]

theorem filter_isDuplicate_ofStatements (table : InstructionSet) (origin : UInt16)
    (statements : List Statement) :
    (ofStatements table origin statements).diagnostics.filter Diagnostic.isDuplicate =
      withFront (duplicate? table origin.toNat) statements := by
  unfold ofStatements
  induction statements using List.reverseRecOn with
  | nil => rfl
  | append_singleton statements s ih =>
    rw [ofState_append, withFront_concat, ← ih, ← (place_after_start table origin statements s).2]
    simp only [diagnostics_ofState_cons, ofState_nil, List.append_nil, List.filter_append]

/-- **The labels of statements**, as a layout that starts at the origin defines
    them. -/
structure DefinesLabels (table : InstructionSet) (origin : UInt16) (statements : List Statement) :
    Prop where
  /-- In the order of the statements, there is a symbol for each one whose label
      none in front carries, if the address behind its front has sixteen bits. -/
  symbols_eq : (ofStatements table origin statements).symbols.symbols =
    withFront (newSymbol? table origin.toNat) statements
  /-- It has this address, which is the origin and the sizes of the accepted
      instructions in front. -/
  address_eq : ∀ front s back symbol, statements = front ++ s :: back →
    newSymbol? table origin.toNat front s = some symbol →
    symbol.address.toNat = origin.toNat + ((accepted table front).map Accepted.size).sum
  /-- No two symbols share a name, -/
  names_nodup : ((ofStatements table origin statements).symbols.symbols.map Symbol.name).Nodup
  /-- and a name is found as it is written, upper and lower case being different. -/
  find?_eq_some_iff : ∀ name symbol,
    (ofStatements table origin statements).symbols.find? name = some symbol ↔
      symbol ∈ (ofStatements table origin statements).symbols.symbols ∧ symbol.name = name
  /-- The addresses do not fall, -/
  ascending : (ofStatements table origin statements).symbols.symbols.Pairwise
    fun a b => a.address ≤ b.address
  /-- and they begin at the origin or behind it. -/
  origin_le : ∀ symbol ∈ (ofStatements table origin statements).symbols.symbols,
    origin ≤ symbol.address
  /-- Every further carrier of such a label that has an address is reported, once
      and with the line of the first carrier, -/
  duplicates_eq : (ofStatements table origin statements).diagnostics.filter
      Diagnostic.isDuplicate = withFront (duplicate? table origin.toNat) statements
  /-- a text that names this label and this line, and no others, -/
  message_iff : ∀ front s d, duplicate? table origin.toNat front s = some d → ∀ name line,
    d.message = s!"label '{name}' already defined on line {line}" ↔
      s.label = some name ∧ (carrier? front name).map Statement.line = some line
  /-- and it leaves the symbols as they are. -/
  unchanged : ∀ front s back name first, statements = front ++ s :: back →
    s.label = some name → carrier? front name = some first →
    ((State.start origin).after table (front ++ [s])).symbols =
      ((State.start origin).after table front).symbols

/-- The report of a duplicate can be read back. -/
theorem message_of_duplicate? {origin : Nat} {front : List Statement} {s : Statement}
    {d : Diagnostic} (h : duplicate? table origin front s = some d) {name : String} {line : Nat} :
    d.message = s!"label '{name}' already defined on line {line}" ↔
      s.label = some name ∧ (carrier? front name).map Statement.line = some line := by
  unfold duplicate? at h
  obtain ⟨label, hlabel, h⟩ := Option.bind_eq_some_iff.mp h
  obtain ⟨first, hfirst, h⟩ := Option.bind_eq_some_iff.mp h
  split at h
  · rw [← Option.some.inj h, hlabel]
    refine PlacementFault.message_duplicateLabel_inj.trans ?_
    rw [Option.some.injEq]
    apply and_congr_right
    rintro rfl
    rw [hfirst, Option.map_some, Option.some.injEq]
  · simp at h

theorem definesLabels (table : InstructionSet) (origin : UInt16) (statements : List Statement) :
    DefinesLabels table origin statements := by
  have hsymbols : (ofStatements table origin statements).symbols.symbols =
      withFront (newSymbol? table origin.toNat) statements := by
    rw [ofStatements, symbols_ofState, symbols_after_start]
  obtain ⟨hpairwise, hbounds⟩ := pairwise_address_withFront table origin.toNat statements
  exact
    { symbols_eq := hsymbols
      address_eq := by
        intro front s back symbol _ hsymbol
        rw [toNat_address_of_newSymbol? hsymbol, addressAfter, sum_room_eq]
      names_nodup := (ofStatements table origin statements).symbols.distinct
      find?_eq_some_iff := fun _ _ => SymbolTable.find?_eq_some_iff
      ascending := by rwa [hsymbols]
      origin_le := by
        intro symbol hsymbol
        rw [hsymbols] at hsymbol
        exact UInt16.le_iff_toNat_le.mpr (hbounds symbol hsymbol).1
      duplicates_eq := filter_isDuplicate_ofStatements table origin statements
      message_iff := fun _ _ _ hreport _ _ => message_of_duplicate? hreport
      unchanged := by
        intro front s back name first _ hs hfirst
        have hnone : newSymbol? table origin.toNat front s = none := by
          simp [newSymbol?, hs, hfirst]
        have hstep := (place_after_start table origin front s).1
        rw [hnone, Option.toList_none, List.append_nil] at hstep
        exact SymbolTable.eq_of_symbols_eq hstep }

end Layout

/-! ### The instruction behind a label -/

namespace Statement

variable {table : InstructionSet}

/-- Instructions that lie one behind the other begin at the address of the first,
    or end there if there is none. -/
theorem elim_head?_of_contiguous {address : Nat} {l : List Encoded}
    (h : Encoded.Contiguous address l) :
    l.head?.elim (address + (l.map Encoded.size).sum) (·.address.toNat) = address := by
  cases l with
  | nil => rfl
  | cons e rest => exact h.1

/-- A symbol stands on the line of one of the statements, -/
theorem exists_line_of_mem_symbolsFrom {address : Nat} {statements : List Statement}
    {symbol : Symbol} (h : symbol ∈ symbolsFrom table address statements) :
    ∃ s ∈ statements, symbol.line = s.line := by
  obtain ⟨p, hp, hsymbol⟩ := List.mem_filterMap.mp h
  exact ⟨p.2, (mem_of_mem_addressed hp).1, line_of_symbolAt hsymbol⟩

/-- **Run**: and if the statements are admissible and their lines ascend, it has
    the address of the first instruction on its line or behind it, or of the end
    if there is none. -/
theorem address_of_mem_symbolsFrom {address : Nat} {statements : List Statement}
    (h : Admissible table address statements)
    (hlines : statements.Pairwise fun s t => s.line < t.line) {symbol : Symbol}
    (hsymbol : symbol ∈ symbolsFrom table address statements) :
    symbol.address.toNat = ((instructionsFrom table address statements).find? fun e =>
      symbol.line ≤ e.line).elim (addressAfter table address statements) (·.address.toNat) := by
  induction statements generalizing address with
  | nil => simp [symbolsFrom, addressed] at hsymbol
  | cons s rest ih =>
    obtain ⟨hs, -, hrest⟩ := admissible_cons_iff.mp h
    obtain ⟨hfirst, hlater⟩ := List.pairwise_cons.mp hlines
    rw [symbolsFrom_cons] at hsymbol
    rcases List.mem_append.mp hsymbol with hown | hbehind
    · -- all instructions stand on the line of the symbol or behind it
      obtain ⟨name, hname, rfl⟩ := Option.map_eq_some_iff.mp (Option.mem_toList.mp hown)
      have hall : ∀ e ∈ instructionsFrom table address (s :: rest), s.line ≤ e.line := by
        intro e he
        obtain ⟨t, ht, at_, hencodes⟩ := exists_encodes_of_mem h he
        rw [hencodes.line_eq]
        rcases List.mem_cons.mp ht with rfl | ht
        · exact Nat.le_refl _
        · exact Nat.le_of_lt (hfirst t ht)
      obtain ⟨hcontiguous, hsum⟩ := contiguous_instructionsFrom h
      have hhead := elim_head?_of_contiguous hcontiguous
      have hwithin := hs.label_within (by simp [hname])
      show (UInt16.ofNat address).toNat = _
      rw [← List.head?_filter, List.filter_eq_self.mpr (by simpa using hall), addressAfter, ← hsum,
        hhead]
      exact Nat.mod_eq_of_lt (Nat.lt_succ_of_le hwithin)
    · -- an instruction on the first line stands in front of the symbol
      obtain ⟨t, ht, hline⟩ := exists_line_of_mem_symbolsFrom hbehind
      have hfront : ∀ e ∈ (encodedAt table address s).toList, ¬ symbol.line ≤ e.line := by
        intro e he
        rw [line_of_encodedAt (Option.mem_toList.mp he), hline]
        exact Nat.not_le.mpr (hfirst t ht)
      have hnone : (encodedAt table address s).toList.find? (fun e => symbol.line ≤ e.line) = none :=
        List.find?_eq_none.mpr (by simpa using hfront)
      have hend : addressAfter table address (s :: rest) =
          addressAfter table (address + s.room table) rest := by
        simp [addressAfter, Nat.add_assoc]
      rw [ih hrest hlater hbehind, instructionsFrom_cons, List.find?_append, hnone, Option.none_or,
        hend]

end Statement

/-- The address of the first instruction on a line or behind it, or of the end of
    the program if there is none. -/
def Program.nextAddress (program : Program) (line : Nat) : Nat :=
  (program.instructions.find? fun e => line ≤ e.line).elim program.endAddress
    fun e => e.address.toNat

/-- The symbols of a program are those of the layout of its statements. -/
theorem symbols_of_assembleLines_eq_ok {table : InstructionSet} {options : Options}
    {lines : List String} {program : Program}
    (h : assembleLines table options lines = .ok program) :
    program.symbols = (Layout.ofStatements table options.origin
      (Reading.statements (Reading.ofLines lines))).symbols := by
  simp only [assembleLines, Assembly.run] at h
  split at h
  · rw [← Except.ok.inj h]
    rfl
  · simp at h

end Mos6502
