/-! # Symbol Tables

    A symbol table holds the labels of a program in the order of their
    definition. A label is defined once: the first definition stays, and a
    later one is refused with it. Names are compared as they are written.
-/

namespace Mos6502

/-- A label with its address. -/
structure Symbol where
  /-- The label. -/
  name : String
  /-- The address it stands for. -/
  address : UInt16
  /-- Number of the line that defines it. -/
  line : Nat
deriving DecidableEq, Repr

/-- The labels of a program. -/
structure SymbolTable where
  /-- The symbols in order of definition. -/
  symbols : List Symbol
  /-- No two symbols share a name. -/
  distinct : (symbols.map Symbol.name).Nodup
deriving DecidableEq, Repr

namespace SymbolTable

/-- The table without symbols. -/
def empty : SymbolTable := ⟨[], .nil⟩

instance : Inhabited SymbolTable := ⟨empty⟩

/-- The number of symbols. -/
def size (table : SymbolTable) : Nat := table.symbols.length

/-- The symbol of a name. -/
def find? (table : SymbolTable) (name : String) : Option Symbol :=
  table.symbols.find? fun symbol => symbol.name = name

/-- The address of a name. -/
def address? (table : SymbolTable) (name : String) : Option UInt16 :=
  (table.find? name).map Symbol.address

/-- The table with a symbol at its end, or the same table if the name is
    taken. -/
def insertIfNew (table : SymbolTable) (symbol : Symbol) : SymbolTable :=
  if h : symbol.name ∈ table.symbols.map Symbol.name then table
  else
    { symbols := table.symbols ++ [symbol]
      distinct := by
        rw [List.map_append, List.nodup_append]
        exact ⟨table.distinct, by simp, by
          intro name taken other new same
          simp only [List.map_cons, List.map_nil, List.mem_singleton] at new
          exact h (new ▸ same ▸ taken)⟩ }

/-- Defines a symbol, or gives the first definition of its name. -/
def define (table : SymbolTable) (symbol : Symbol) : Except Symbol SymbolTable :=
  match table.find? symbol.name with
  | some first => .error first
  | none => .ok (table.insertIfNew symbol)

/-- Adds symbols in order and leaves out those whose name is taken. -/
def ofList (symbols : List Symbol) : SymbolTable := symbols.foldl insertIfNew empty

theorem find?_eq_none_iff {table : SymbolTable} {name : String} :
    table.find? name = none ↔ name ∉ table.symbols.map Symbol.name := by
  simp [find?]

theorem symbols_insertIfNew_of_find?_eq_none {table : SymbolTable} {symbol : Symbol}
    (free : table.find? symbol.name = none) :
    (table.insertIfNew symbol).symbols = table.symbols ++ [symbol] := by
  rw [insertIfNew, dif_neg (find?_eq_none_iff.mp free)]

theorem insertIfNew_of_find?_eq_some {table : SymbolTable} {symbol first : Symbol}
    (taken : table.find? symbol.name = some first) : table.insertIfNew symbol = table := by
  have mem : symbol.name ∈ table.symbols.map Symbol.name := by
    refine Decidable.byContradiction fun new => ?_
    simp [find?_eq_none_iff.mpr new] at taken
  rw [insertIfNew, dif_pos mem]

/-- A table answers as before, and for a free name with the new symbol. -/
theorem find?_insertIfNew_of_find?_eq_none {table : SymbolTable} {symbol : Symbol}
    (free : table.find? symbol.name = none) (name : String) :
    (table.insertIfNew symbol).find? name =
      (table.find? name).or (if symbol.name = name then some symbol else none) := by
  have last : [symbol].find? (fun s => s.name = name) =
      if symbol.name = name then some symbol else none := by
    by_cases same : symbol.name = name <;> simp [same]
  rw [find?, symbols_insertIfNew_of_find?_eq_none free, List.find?_append, last, find?]

end SymbolTable

end Mos6502
