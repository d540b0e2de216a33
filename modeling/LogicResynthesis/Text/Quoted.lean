import LogicResynthesis.Text.Numeral
import LogicResynthesis.Text.Unprintable

/-!
# Quoted text

A text between double quotes on one line. The quote and the backslash take a
backslash, four controls have short forms, and every other character without a
plain printed form is written by its code point.
-/

namespace LogicResynthesis.Text

def quoteChar (c : Char) : List Char :=
  if c = '"' then ['\\', '"']
  else if c = '\\' then ['\\', '\\']
  else if c = '\n' then ['\\', 'n']
  else if c = '\r' then ['\\', 'r']
  else if c = '\t' then ['\\', 't']
  else if c = '\x00' then ['\\', '0']
  else if isUnprintable c then ['\\', 'u', '\x7b'] ++ hexDigits c.toNat ++ ['\x7d']
  else [c]

def quoted (s : String) : String :=
  String.ofList ('"' :: s.toList.flatMap quoteChar ++ ['"'])

end LogicResynthesis.Text
