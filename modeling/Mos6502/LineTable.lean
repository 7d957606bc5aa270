import Mos6502.Bisection
import Mos6502.Instruction.Basic

/-! # Line Tables

    A line table says which source line the bytes at an address come from, and
    which addresses a source line occupies. Entries are collected in any order
    and then indexed, once by the start of their range and once by their line.
    Look-ups are answered from the indexes by bisection.
-/

namespace Mos6502

/-- A place in the source. -/
structure Location where
  /-- Number of the line. -/
  line : Nat
  /-- Column in bytes, from zero. -/
  column : Nat
deriving DecidableEq, Repr

/-- The addresses from a first one up to, and not including, a last one. -/
structure AddressRange where
  /-- The first address. -/
  start : UInt16
  /-- The address behind the last one. It is `0x10000` for a range that ends
      with the address space. -/
  stop : Nat
deriving DecidableEq, Repr

/-- Does the range hold the address? -/
def AddressRange.contains (range : AddressRange) (address : UInt16) : Bool :=
  range.start ≤ address && address.toNat < range.stop

/-- The correspondence between addresses and source lines. -/
structure LineTable where
  /-- Ranges with their locations; in ascending order of their start once the
      table is indexed. -/
  byAddress : List (AddressRange × Location)
  /-- Lines with their ranges; in ascending order of the lines once the table
      is indexed. -/
  byLine : List (Nat × AddressRange)
deriving DecidableEq, Repr

namespace LineTable

/-- The table without entries. -/
def empty : LineTable := ⟨[], []⟩

instance : Inhabited LineTable := ⟨empty⟩

/-- Has the table no entries? -/
def isEmpty (table : LineTable) : Bool := table.byAddress.isEmpty

/-- Adds an entry. The table has to be indexed before it is asked again. -/
def add (table : LineTable) (range : AddressRange) (location : Location) : LineTable :=
  { byAddress := table.byAddress ++ [(range, location)]
    byLine := table.byLine ++ [(location.line, range)] }

/-- Sorts both indexes. Entries with one start, and entries with one line, keep
    the order in which they were added. -/
def index (table : LineTable) : LineTable :=
  { byAddress := table.byAddress.mergeSort fun a b => a.1.start ≤ b.1.start
    byLine := table.byLine.mergeSort fun a b => a.1 ≤ b.1 }

/-- The location of the bytes at an address: that of the last range that starts
    at the address or before it, if the range reaches so far. The table has to
    be indexed. -/
def location? (table : LineTable) (address : UInt16) : Option Location :=
  match Bisection.partitionPoint (fun entry => entry.1.start ≤ address) table.byAddress with
  | 0 => none
  | last + 1 =>
    table.byAddress[last]?.bind fun (range, location) =>
      if range.contains address then some location else none

/-- The addresses of a line. The table has to be indexed. -/
def range? (table : LineTable) (line : Nat) : Option AddressRange :=
  match Bisection.search (fun entry => compare entry.1 line) table.byLine with
  | .ok index => table.byLine[index]?.map Prod.snd
  | .error _ => none

/-- The addresses that an instruction occupies. -/
def rangeOf (encoded : Encoded) : AddressRange := ⟨encoded.address, encoded.endAddress⟩

/-- The place at which an instruction stands. -/
def locationOf (encoded : Encoded) : Location := ⟨encoded.line, encoded.column⟩

/-- The indexed table of some instructions. -/
def ofInstructions (instructions : List Encoded) : LineTable :=
  index
    { byAddress := instructions.map fun encoded => (rangeOf encoded, locationOf encoded)
      byLine := instructions.map fun encoded => (encoded.line, rangeOf encoded) }

end LineTable

end Mos6502
