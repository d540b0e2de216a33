/-!
# TOML documents

A document is a table of items under distinct keys. Tables come into being in
four ways: by a header, as a step on the way to a header below them, by a dotted
key, or inline between braces. A header or a key may extend an existing table
only if the way it came into being allows that, which is what `update` decides.
-/

namespace LogicResynthesis
namespace Toml

/-- How a table came into being. -/
inductive TableKind
  | header
  | implied
  | dotted
  | inline
deriving DecidableEq, Repr

inductive Item
  | string (text : String)
  | integer (value : Int)
  | float
  | boolean (value : Bool)
  | datetime
  | array (items : List Item)
  | table (kind : TableKind) (entries : List (String × Item))
  /-- Tables under repeated headers in double brackets. -/
  | tables (elements : List (List (String × Item)))
deriving Repr

abbrev Entries := List (String × Item)

namespace Entries

def replace (es : Entries) (key : String) (item : Item) : Entries :=
  es.map fun e => if e.1 = key then (key, item) else e

/-- Changes the table at the end of a path by `f`, which is also told its kind. Missing
tables on the path are created. A dotted path may not pass through a table with a header
of its own, and no path passes through an inline table or another value. -/
def update (byDots : Bool) (f : TableKind → Entries → Option Entries) :
    List String → TableKind → Entries → Option Entries
  | [], kind, es => f kind es
  | key :: path, _, es =>
    match es.lookup key with
    | none =>
      let kind := if byDots then .dotted else .implied
      (update byDots f path kind []).map fun sub => es ++ [(key, .table kind sub)]
    | some (.table .inline _) => none
    | some (.table kind sub) =>
      if byDots && kind = .header then none
      else (update byDots f path kind sub).map fun sub => es.replace key (.table kind sub)
    | some (.tables elements) =>
      elements.getLast?.bind fun last =>
        (update byDots f path .header last).map fun last =>
          es.replace key (.tables (elements.dropLast ++ [last]))
    | some _ => none

/-- The item at the end of a path, looked up as `update` walks. -/
def atPath? : List String → Entries → Option Item
  | [], _ => none
  | [key], es => es.lookup key
  | key :: path, es =>
    match es.lookup key with
    | some (.table _ sub) => atPath? path sub
    | some (.tables elements) => elements.getLast?.bind (atPath? path)
    | _ => none

/-- Adds an item under a dotted key, which has to be new. A key with dots may add to a
table made by dots only, and a plain key never does. -/
def insert? (es : Entries) (path : List String) (key : String) (item : Item) : Option Entries :=
  update true
    (fun kind sub =>
      if decide (kind = .dotted) = path.isEmpty then none
      else if (sub.lookup key).isSome then none
      else some (sub ++ [(key, item)]))
    path .header es

end Entries

/-- A document being read: the finished part, and the table of the last header. -/
structure Draft where
  root : Entries
  current : Entries
  path : List String
  /-- Whether the last header was in double brackets. -/
  repeated : Bool

namespace Draft

def empty : Draft := ⟨[], [], [], false⟩

/-- The document with the table of the last header put in its place. -/
def finish (d : Draft) : Option Entries :=
  match d.path.getLast? with
  | none => some d.current
  | some key =>
    Entries.update false
      (fun _ es =>
        match es.lookup key, d.repeated with
        | none, true => some (es ++ [(key, .tables [d.current])])
        | some (.tables elements), true =>
          some (Entries.replace es key (.tables (elements ++ [d.current])))
        | none, false => some (es ++ [(key, .table .header d.current)])
        | _, _ => none)
      d.path.dropLast .header d.root

/-- Starts the table of a header. A table that was only implied so far is taken over. -/
def startTable (d : Draft) (path : List String) : Option Draft := do
  let root ← d.finish
  let key ← path.getLast?
  let open' ← Entries.update false
    (fun _ es =>
      match es.lookup key with
      | none => some es
      | some (.table .implied _) => some (es.filter fun e => e.1 ≠ key)
      | some _ => none)
    path.dropLast .header root
  let taken := match Entries.atPath? path root with
    | some (.table .implied sub) => sub
    | _ => []
  return ⟨open', taken, path, false⟩

def startRepeated (d : Draft) (path : List String) : Option Draft := do
  let root ← d.finish
  let key ← path.getLast?
  let open' ← Entries.update false
    (fun _ es =>
      match es.lookup key with
      | none => some (es ++ [(key, .tables [])])
      | some (.tables _) => some es
      | some _ => none)
    path.dropLast .header root
  return ⟨open', [], path, true⟩

def insert? (d : Draft) (path : List String) (key : String) (item : Item) : Option Draft :=
  (d.current.insert? path key item).map fun es => { d with current := es }

end Draft

end Toml
end LogicResynthesis
