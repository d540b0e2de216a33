import LogicResynthesis.Toml.Document

/-!
# Settings files

A settings file is a TOML document. Its key `resyn` may hold a table, in which
`verbose` may hold a truth value; other keys are free. In place of the table
stands also an array whose first element is the truth value, or a date, which
says nothing.
-/

namespace LogicResynthesis
namespace Cli

open Toml (Item Entries)

structure Settings where
  verbose : Option Bool
deriving DecidableEq, Repr

namespace Settings

def none : Settings := ⟨.none⟩

/-- The settings under `resyn`. -/
def ofItem? : Item → Option Settings
  | .table _ es =>
    match es.lookup "verbose" with
    | .none => some .none
    | some (.boolean b) => some ⟨some b⟩
    | some _ => .none
  | .array (.boolean b :: _) => some ⟨some b⟩
  | .datetime => some .none
  | _ => .none

def ofEntries? (es : Entries) : Option Settings :=
  match es.lookup "resyn" with
  | .none => some .none
  | some item => ofItem? item

def ofText? (text : String) : Option Settings := (Toml.document? text).bind ofEntries?

end Settings

end Cli
end LogicResynthesis
