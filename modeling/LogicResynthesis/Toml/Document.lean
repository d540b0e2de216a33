import LogicResynthesis.Toml.Number

/-!
# Reading TOML

Values, lines and whole documents. Arrays may run over lines and end in a comma;
inline tables stay on one line and do not. A document that is not well formed in
any place has no reading.
-/

namespace LogicResynthesis
namespace Toml

/-- The rest of an array whose elements are read by `value`, after the elements in `read`,
last first. -/
def arrayRest (value : List Char → Option (Item × List Char)) :
    Nat → List Item → List Char → Option (Item × List Char)
  | 0, _, _ => none
  | fuel + 1, read, cs => do
    let cs ← skipLines cs.length cs
    match cs with
    | ']' :: rest => return (.array read.reverse, rest)
    | cs =>
      let (item, cs) ← value cs
      let cs ← skipLines cs.length cs
      match cs with
      | ',' :: rest => arrayRest value fuel (item :: read) rest
      | ']' :: rest => return (.array (item :: read).reverse, rest)
      | _ => none

/-- The rest of an inline table with at least one more entry. -/
def inlineRest (value : List Char → Option (Item × List Char)) :
    Nat → Entries → List Char → Option (Item × List Char)
  | 0, _, _ => none
  | fuel + 1, es, cs => do
    let (path, last, cs) ← key cs
    let cs ← expect '=' cs
    let (item, cs) ← value (skipBlanks cs)
    let es ← es.insert? path last item
    match skipBlanks cs with
    | ',' :: rest => inlineRest value fuel es rest
    | '\x7d' :: rest => return (.table .inline es, rest)
    | _ => none

/-- A value inside fewer than `levels` further arrays and inline tables. -/
def value : Nat → List Char → Option (Item × List Char)
  | levels, cs =>
    match cs, levels with
    | '"' :: _, _ | '\'' :: _, _ => (string cs).map fun r => (.string r.1, r.2)
    | 't' :: 'r' :: 'u' :: 'e' :: rest, _ => some (.boolean true, rest)
    | 'f' :: 'a' :: 'l' :: 's' :: 'e' :: rest, _ => some (.boolean false, rest)
    | '[' :: rest, levels + 1 => arrayRest (value levels) (rest.length + 1) [] rest
    | '\x7b' :: rest, levels + 1 =>
      match skipBlanks rest with
      | '\x7d' :: rest => some (.table .inline [], rest)
      | rest => inlineRest (value levels) (rest.length + 1) [] rest
    | '[' :: _, 0 | '\x7b' :: _, 0 => none
    | _, _ => number cs

/-- A key with its value and the end of the line. -/
def keyLine (d : Draft) (cs : List Char) : Option (Draft × List Char) := do
  let (path, last, cs) ← key cs
  let cs ← expect '=' cs
  let (item, cs) ← value (levelLimit - 1) (skipBlanks cs)
  let cs ← endOfLine cs
  return (← d.insert? path last item, cs)

/-- A header after its first bracket. -/
def headerLine (d : Draft) (cs : List Char) : Option (Draft × List Char) := do
  match cs with
  | '[' :: cs =>
    let (path, last, cs) ← key cs
    let cs ← endOfLine (← expect ']' (← expect ']' cs))
    return (← d.startRepeated (path ++ [last]), cs)
  | cs =>
    let (path, last, cs) ← key cs
    let cs ← endOfLine (← expect ']' cs)
    return (← d.startTable (path ++ [last]), cs)

/-- The lines of a document, after those that led to the draft `d`. -/
def documentLines : Nat → Draft → List Char → Option Entries
  | 0, _, _ => none
  | fuel + 1, d, cs =>
    match skipBlanks cs with
    | [] => d.finish
    | '#' :: rest => (endOfLine ('#' :: rest)).bind (documentLines fuel d)
    | '[' :: rest => (headerLine d rest).bind fun r => documentLines fuel r.1 r.2
    | '\n' :: rest => documentLines fuel d rest
    | '\r' :: rest => (newline ('\r' :: rest)).bind (documentLines fuel d)
    | cs => (keyLine d cs).bind fun r => documentLines fuel r.1 r.2

/-- The entries of a document; a byte order mark may come first. -/
def document? (text : String) : Option Entries :=
  let cs := match text.toList with
    | '\ufeff' :: cs => cs
    | cs => cs
  documentLines (cs.length + 1) .empty cs

end Toml
end LogicResynthesis
