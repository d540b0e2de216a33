import LogicResynthesis.Text.Blank
import LogicResynthesis.Text.Numeral
import LogicResynthesis.Text.Quoted
import LogicResynthesis.TruthTable.Table

/-!
# Hexadecimal truth tables

A table is written as `0x` and a hexadecimal number, padded to a quarter of its
rows. It is read from a text with blanks around it, an optional `0x` or `0X`,
and a number below `2 ^ 64`. The number is read first, then the input count is
checked, then that the number fits in the rows.
-/

namespace LogicResynthesis

inductive HexError
  | tooManyInputs (inputs : Nat)
  | badDigits (text : String)
  | tooWide (value inputs : Nat)
deriving DecidableEq, Repr

def HexError.message : HexError → String
  | tooManyInputs n => s!"truth tables support at most 6 inputs; got {n}"
  | badDigits text => s!"invalid hex truth table: {Text.quoted text}"
  | tooWide v n =>
      s!"truth table 0x{String.ofList (Text.hexDigits v)} has bits set beyond the {rowCount n} rows of a {n}-input function"

namespace Table

/-- The table over `n` inputs whose column is the number `v`. -/
def ofNat (n v : Nat) : Except HexError Table :=
  if h : n ≤ 6 then
    if v < Nat.pow 2 (rowCount n) then .ok ⟨n, BitVec.ofNat _ v, h⟩ else .error (.tooWide v n)
  else .error (.tooManyInputs n)

/-- Drops one leading `0x` or `0X`. -/
def dropHexMark : List Char → List Char
  | '0' :: 'x' :: cs => cs
  | '0' :: 'X' :: cs => cs
  | cs => cs

/-- The number that a hexadecimal text denotes. -/
def hexValue? (cs : List Char) : Option Nat :=
  Text.bounded? 16 Text.wordBound (dropHexMark (Text.trim cs))

def ofHex (n : Nat) (text : String) : Except HexError Table :=
  match hexValue? text.toList with
  | some v => ofNat n v
  | none => .error (.badDigits text)

/-- The written form: `0x` and the column as a padded number. -/
def toHex (t : Table) : String :=
  String.ofList ('0' :: 'x' :: Text.padZeros (max 1 (t.rows / 4)) (Text.hexDigits t.toNat))

end Table

namespace Table4

def toHex (f : Table4) : String :=
  String.ofList ('0' :: 'x' :: Text.padZeros 4 (Text.hexDigits f.toNat))

def ofHex (text : String) : Except HexError Table4 :=
  (Table.ofHex 4 text).map fun t => ofNat t.toNat

theorem toHex_ofTable4 (f : Table4) : (Table.ofTable4 f).toHex = f.toHex := by
  have h : max 1 ((Table.ofTable4 f).rows / 4) = 4 := show max 1 (rowCount 4 / 4) = 4 by decide
  have h' : (Table.ofTable4 f).toNat = f.toNat := rfl
  rw [Table.toHex, toHex, h, h']

end Table4

end LogicResynthesis
