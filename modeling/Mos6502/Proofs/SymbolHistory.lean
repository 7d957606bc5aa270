import Mathlib.Data.List.Basic
import Mathlib.Data.List.Induction
import Mos6502.Symbol.Table

/-! # What a Symbol Table Remembers

    A symbol table comes about by definitions that are tried one after the
    other. The first one of a name goes to the end of the table; every later one
    is refused with it, whatever its address and its line, and leaves the table
    as it is. `SymbolTable.Remembers` says what the table holds and answers in
    terms of these attempts alone.

    A table is never asked anything but names, so one step is described by what
    is found after it (`find?_tryDefine`), and a run by what is found first in
    the table and then among the attempts (`find?_defineAll`). That a symbol
    stays, with its address and in its place, is read off this.
-/

namespace Mos6502

/-- When the elements of a list give something one by one, each in view of those
    in front of it, then one more element may give one thing more, and the others
    give what they have given. -/
theorem filterMap_take_concat {α β : Type} (f : List α → α → Option β) (l : List α) (a : α) :
    (l ++ [a]).zipIdx.filterMap (fun (b, i) => f ((l ++ [a]).take i) b) =
      l.zipIdx.filterMap (fun (b, i) => f (l.take i) b) ++ (f l a).toList := by
  have hlast : [a].zipIdx l.length = [(a, l.length)] := rfl
  rw [List.zipIdx_append, Nat.zero_add, hlast, List.filterMap_append]
  congr 1
  · apply List.filterMap_congr
    intro (b, i) hb
    have hi : i < l.length := List.snd_lt_of_mem_zipIdx hb
    show f ((l ++ [a]).take i) b = f (l.take i) b
    rw [List.take_append_of_le_length (Nat.le_of_lt hi)]
  · simp only [List.filterMap_cons, List.filterMap_nil, List.take_left]
    cases f l a <;> rfl

namespace SymbolTable

/-! ### Definitions one after the other -/

/-- Tries to define a symbol: the answer, and the table that there is then. -/
def tryDefine (table : SymbolTable) (symbol : Symbol) : Except Symbol Unit × SymbolTable :=
  match table.define symbol with
  | .ok next => (.ok (), next)
  | .error first => (.error first, table)

/-- The table after some more attempts. -/
def defineAll (table : SymbolTable) (attempts : List Symbol) : SymbolTable :=
  attempts.foldl (fun table symbol => (table.tryDefine symbol).2) table

/-- The attempt that is the first one with a name. -/
def firstOf? (history : List Symbol) (name : String) : Option Symbol :=
  history.find? fun symbol => symbol.name = name

/-- The attempts that are the first ones with their names, in order. -/
def firsts (history : List Symbol) : List Symbol :=
  history.zipIdx.filterMap fun (symbol, i) =>
    if ∀ earlier ∈ history.take i, earlier.name ≠ symbol.name then some symbol else none

section Step

variable {table : SymbolTable} {symbol first : Symbol}

theorem tryDefine_of_find?_eq_none (free : table.find? symbol.name = none) :
    table.tryDefine symbol = (.ok (), table.insertIfNew symbol) := by
  rw [tryDefine, define, free]

theorem tryDefine_of_find?_eq_some (taken : table.find? symbol.name = some first) :
    table.tryDefine symbol = (.error first, table) := by
  rw [tryDefine, define, taken]

/-- An attempt leaves the table with the symbol inserted if it is new. -/
theorem snd_tryDefine (table : SymbolTable) (symbol : Symbol) :
    (table.tryDefine symbol).2 = table.insertIfNew symbol := by
  cases hfind : table.find? symbol.name with
  | none => rw [tryDefine_of_find?_eq_none hfind]
  | some first => rw [tryDefine_of_find?_eq_some hfind, insertIfNew_of_find?_eq_some hfind]

/-- **Step**: what is found after an attempt has been found before, or else is
    what has been tried. -/
theorem find?_tryDefine (table : SymbolTable) (symbol : Symbol) (name : String) :
    (table.tryDefine symbol).2.find? name =
      (table.find? name).or (if symbol.name = name then some symbol else none) := by
  cases hfind : table.find? symbol.name with
  | none =>
    rw [tryDefine_of_find?_eq_none hfind]
    exact find?_insertIfNew_of_find?_eq_none hfind name
  | some first =>
    rw [tryDefine_of_find?_eq_some hfind]
    -- the symbol that has been refused is not asked for, or comes second
    by_cases hname : symbol.name = name
    · rw [← hname, hfind, Option.some_or]
    · rw [if_neg hname, Option.or_none]

theorem symbols_tryDefine (table : SymbolTable) (symbol : Symbol) :
    (table.tryDefine symbol).2.symbols =
      table.symbols ++ if table.find? symbol.name = none then [symbol] else [] := by
  cases hfind : table.find? symbol.name with
  | none =>
    rw [tryDefine_of_find?_eq_none hfind, if_pos rfl]
    exact symbols_insertIfNew_of_find?_eq_none hfind
  | some first => rw [tryDefine_of_find?_eq_some hfind, if_neg (by simp), List.append_nil]

end Step

theorem defineAll_append (table : SymbolTable) (attempts others : List Symbol) :
    table.defineAll (attempts ++ others) = (table.defineAll attempts).defineAll others :=
  List.foldl_append

theorem defineAll_concat (table : SymbolTable) (attempts : List Symbol) (symbol : Symbol) :
    table.defineAll (attempts ++ [symbol]) = ((table.defineAll attempts).tryDefine symbol).2 :=
  defineAll_append table attempts [symbol]

/-- **Run**: what is found after some attempts has been found before, or else is
    the first of them with the name. -/
theorem find?_defineAll (table : SymbolTable) (attempts : List Symbol) (name : String) :
    (table.defineAll attempts).find? name = (table.find? name).or (firstOf? attempts name) := by
  induction attempts using List.reverseRecOn with
  | nil => exact (Option.or_none).symm
  | append_singleton attempts symbol ih =>
    have hlast : firstOf? (attempts ++ [symbol]) name =
        (firstOf? attempts name).or (if symbol.name = name then some symbol else none) := by
      unfold firstOf?
      rw [List.find?_append]
      by_cases hname : symbol.name = name <;> simp [hname]
    rw [defineAll_concat, find?_tryDefine, ih, hlast, Option.or_assoc]

/-- So what has been found stays found, -/
theorem find?_defineAll_of_eq_some {table : SymbolTable} {name : String} {symbol : Symbol}
    (h : table.find? name = some symbol) (attempts : List Symbol) :
    (table.defineAll attempts).find? name = some symbol := by
  rw [find?_defineAll, h, Option.some_or]

/-- with its address, -/
theorem address?_defineAll_of_eq_some {table : SymbolTable} {name : String} {address : UInt16}
    (h : table.address? name = some address) (attempts : List Symbol) :
    (table.defineAll attempts).address? name = some address := by
  obtain ⟨symbol, hsymbol, rfl⟩ := Option.map_eq_some_iff.mp h
  rw [address?, find?_defineAll_of_eq_some hsymbol, Option.map_some]

/-- and the symbols before stay in their places. -/
theorem symbols_prefix_defineAll (table : SymbolTable) (attempts : List Symbol) :
    table.symbols <+: (table.defineAll attempts).symbols := by
  induction attempts using List.reverseRecOn with
  | nil => exact List.prefix_rfl
  | append_singleton attempts symbol ih =>
    rw [defineAll_concat, symbols_tryDefine]
    exact ih.trans (List.prefix_append _ _)

/-! ### The definitions of a new table -/

theorem firstOf?_eq_none_iff {history : List Symbol} {name : String} :
    firstOf? history name = none ↔ ∀ earlier ∈ history, earlier.name ≠ name := by
  simp [firstOf?]

/-- One more attempt is the first one with its name or not, and those before it
    are what they have been. -/
theorem firsts_concat (history : List Symbol) (symbol : Symbol) :
    firsts (history ++ [symbol]) =
      firsts history ++ if firstOf? history symbol.name = none then [symbol] else [] := by
  have hstep := filterMap_take_concat (fun front s =>
    if ∀ earlier ∈ front, earlier.name ≠ s.name then some s else none) history symbol
  refine hstep.trans (congrArg (firsts history ++ ·) ?_)
  simp only [← firstOf?_eq_none_iff]
  split <;> rfl

/-- What a new table finds is the first attempt with the name. -/
theorem find?_defineAll_empty (history : List Symbol) (name : String) :
    (empty.defineAll history).find? name = firstOf? history name := by
  rw [find?_defineAll]
  rfl

/-- It holds the first attempts of all names. -/
theorem symbols_defineAll_empty (history : List Symbol) :
    (empty.defineAll history).symbols = firsts history := by
  induction history using List.reverseRecOn with
  | nil => rfl
  | append_singleton history symbol ih =>
    rw [defineAll_concat, symbols_tryDefine, find?_defineAll_empty, ih, firsts_concat]

/-- A list makes the table that comes about when all its symbols are tried. -/
theorem ofList_eq_defineAll (history : List Symbol) : ofList history = empty.defineAll history := by
  simp only [ofList, defineAll, snd_tryDefine]

/-- **What a symbol table remembers of the definitions that have been tried.** -/
structure Remembers (table : SymbolTable) (history : List Symbol) : Prop where
  /-- It holds those that are the first ones with their names, in order. -/
  symbols_eq : table.symbols = firsts history
  /-- No two of them share a name. -/
  names_nodup : (table.symbols.map Symbol.name).Nodup
  /-- A name, as it is written, is that of its first definition, -/
  find?_eq : ∀ name, table.find? name = firstOf? history name
  /-- and stands for the address given there. -/
  address?_eq : ∀ name, table.address? name = (firstOf? history name).map Symbol.address

/-- A new table remembers its definitions. -/
theorem remembers_defineAll (history : List Symbol) :
    (empty.defineAll history).Remembers history where
  symbols_eq := symbols_defineAll_empty history
  names_nodup := (empty.defineAll history).distinct
  find?_eq := find?_defineAll_empty history
  address?_eq := by
    intro name
    rw [address?, find?_defineAll_empty]

/-- A definition is accepted behind others if none of them has its name, and
    otherwise refused with the first that has it; the table is then as before. -/
theorem tryDefine_defineAll_empty (front : List Symbol) (symbol : Symbol) :
    let (answer, next) := (empty.defineAll front).tryDefine symbol
    (answer = .ok () ↔ ∀ earlier ∈ front, earlier.name ≠ symbol.name) ∧
    (∀ first, answer = .error first ↔ firstOf? front symbol.name = some first) ∧
    (∀ first, answer = .error first → next = empty.defineAll front) := by
  have hfind := find?_defineAll_empty front symbol.name
  rw [← firstOf?_eq_none_iff]
  -- the table knows a name exactly if it has been tried
  cases hfirst : firstOf? front symbol.name with
  | none =>
    rw [hfirst] at hfind
    rw [tryDefine_of_find?_eq_none hfind]
    simp
  | some first =>
    rw [hfirst] at hfind
    rw [tryDefine_of_find?_eq_some hfind]
    simp

/-- **A table is the record of the first definitions**, whatever has been tried
    in between. An attempt is answered by what has been tried before it, and no
    later attempt changes what a name has been found to be. -/
theorem remembers_definitions (history : List Symbol) :
    (empty.defineAll history).Remembers history ∧
    ofList history = empty.defineAll history ∧
    (∀ front symbol back, history = front ++ symbol :: back →
      let (answer, next) := (empty.defineAll front).tryDefine symbol
      empty.defineAll history = next.defineAll back ∧
      (answer = .ok () ↔ ∀ earlier ∈ front, earlier.name ≠ symbol.name) ∧
      (∀ first, answer = .error first ↔ firstOf? front symbol.name = some first) ∧
      (∀ first, answer = .error first → next = empty.defineAll front)) ∧
    ∀ more,
      (empty.defineAll history).symbols <+: (empty.defineAll (history ++ more)).symbols ∧
      (∀ name symbol, (empty.defineAll history).find? name = some symbol →
        (empty.defineAll (history ++ more)).find? name = some symbol) ∧
      ∀ name address, (empty.defineAll history).address? name = some address →
        (empty.defineAll (history ++ more)).address? name = some address := by
  refine ⟨remembers_defineAll history, ofList_eq_defineAll history, ?_, ?_⟩
  · rintro front symbol back rfl
    -- the run goes on behind the attempt with the table that it has left
    refine ⟨?_, tryDefine_defineAll_empty front symbol⟩
    rw [defineAll_append]
    rfl
  · intro more
    -- what comes later starts from the table that there is
    rw [defineAll_append]
    refine ⟨symbols_prefix_defineAll _ more, ?_, ?_⟩
    · intro name symbol hsymbol
      exact find?_defineAll_of_eq_some hsymbol more
    · intro name address haddress
      exact address?_defineAll_of_eq_some haddress more

/-- Two names that differ in their case alone, and a definition that comes too
    late for the first of them. -/
theorem remembers_definitions_too_late :
    let first : Symbol := ⟨"loop", 0x8000, 1⟩
    let other : Symbol := ⟨"Loop", 0x8002, 4⟩
    let late : Symbol := ⟨"loop", 0x9000, 10⟩
    let last : Symbol := ⟨"end", 0x9003, 12⟩
    (empty.defineAll [first, other, late]).symbols = [first, other] ∧
      (empty.defineAll [first, other, late]).find? "loop" = some first ∧
      (empty.defineAll [first, other, late]).address? "Loop" = some 0x8002 ∧
      (empty.defineAll [first, other, late]).find? "LOOP" = none ∧
      ((empty.defineAll [first, other]).tryDefine late).1 = .error first ∧
      ((empty.defineAll [first, other]).tryDefine late).2 = empty.defineAll [first, other] ∧
      (empty.defineAll [first, other, late, last]).address? "loop" = some 0x8000 := by
  intro first other late last
  obtain ⟨hremembers, -, hattempt, hlater⟩ := remembers_definitions [first, other, late]
  obtain ⟨-, -, hrefused, hunchanged⟩ := hattempt [first, other] late [] rfl
  have hanswer : ((empty.defineAll [first, other]).tryDefine late).1 = .error first :=
    (hrefused first).mpr (by decide +kernel)
  have haddress : (empty.defineAll [first, other, late]).address? "loop" = some 0x8000 := by
    rw [hremembers.address?_eq]
    decide +kernel
  refine ⟨?_, ?_, ?_, ?_, hanswer, hunchanged first hanswer, ?_⟩
  · rw [hremembers.symbols_eq]
    decide +kernel
  · rw [hremembers.find?_eq]
    decide +kernel
  · rw [hremembers.address?_eq]
    decide +kernel
  · rw [hremembers.find?_eq]
    decide +kernel
  · exact (hlater [last]).2.2 "loop" 0x8000 haddress

end SymbolTable

end Mos6502
