import LogicResynthesis.Text.Numeral

/-!
# Characters, strings and keys of TOML

Readers take the characters ahead and return what they read with the rest, or
nothing if the text is not of their form. Strings come in four forms, basic or
literal and on one line or several; a key is bare or a string on one line.
-/

namespace LogicResynthesis
namespace Toml

/-- Characters that may stand in comments: all but controls, the tab excepted. -/
def isPlain (c : Char) : Bool := c = '\t' || (' ' ≤ c && c ≠ '\x7f')

def isBlankChar (c : Char) : Bool := c = ' ' || c = '\t'

def skipBlanks (cs : List Char) : List Char := cs.dropWhile isBlankChar

def newline : List Char → Option (List Char)
  | '\n' :: cs => some cs
  | '\r' :: '\n' :: cs => some cs
  | _ => none

def skipComment : List Char → List Char
  | '#' :: cs => cs.dropWhile isPlain
  | cs => cs

/-- What may follow on a line: blanks, a comment, and the end of the line or of the text. -/
def endOfLine (cs : List Char) : Option (List Char) :=
  match skipComment (skipBlanks cs) with
  | [] => some []
  | cs => newline cs

/-- Skips blanks, newlines and comments that end in a newline. -/
def skipLines : Nat → List Char → Option (List Char)
  | 0, cs => some cs
  | fuel + 1, cs =>
    match skipBlanks cs with
    | '#' :: rest => (newline (rest.dropWhile isPlain)).bind (skipLines fuel)
    | '\n' :: rest => skipLines fuel rest
    | '\r' :: rest => (newline ('\r' :: rest)).bind (skipLines fuel)
    | cs => some cs

/-- The character that a one-letter escape stands for. -/
def shortEscape? : Char → Option Char
  | 'b' => some '\x08'
  | 'f' => some '\x0c'
  | 'n' => some '\n'
  | 'r' => some '\r'
  | 't' => some '\t'
  | '"' => some '"'
  | '\\' => some '\\'
  | _ => none

/-- The character with a code point of exactly `count` hexadecimal digits. -/
def codePoint? (count : Nat) (cs : List Char) : Option (Char × List Char) := do
  let digits := cs.take count
  if digits.length < count then none
  let n ← Text.digits? 16 digits
  if n.isValidChar then some (Char.ofNat n, cs.drop count) else none

/-- What follows a backslash. -/
def escape? : List Char → Option (Char × List Char)
  | 'u' :: cs => codePoint? 4 cs
  | 'U' :: cs => codePoint? 8 cs
  | c :: cs => (shortEscape? c).map (·, cs)
  | [] => none

/-- The rest of a basic string on one line, after the characters in `read`, last first. -/
def basicRest : Nat → List Char → List Char → Option (String × List Char)
  | 0, _, _ => none
  | fuel + 1, read, cs =>
    match cs with
    | '"' :: rest => some (String.ofList read.reverse, rest)
    | '\\' :: rest => (escape? rest).bind fun r => basicRest fuel (r.1 :: read) r.2
    | c :: rest => if isPlain c then basicRest fuel (c :: read) rest else none
    | [] => none

def literalRest (cs : List Char) : Option (String × List Char) :=
  let body := cs.takeWhile fun c => isPlain c && c ≠ '\''
  match cs.drop body.length with
  | '\'' :: rest => some (String.ofList body, rest)
  | _ => none

/-- A closing run of quotes: the last three close, and up to two before them are content. -/
def closing? (quote : Char) (cs : List Char) : Option (Nat × List Char) :=
  let run := (cs.takeWhile (· = quote)).length
  if run < 3 then none
  else
    let content := min (run - 3) 2
    some (content, cs.drop (content + 3))

def skipWhite : List Char → List Char
  | ' ' :: cs | '\t' :: cs | '\n' :: cs | '\r' :: '\n' :: cs => skipWhite cs
  | cs => cs

/-- A backslash at the end of a line hides the line ends and blanks that follow. -/
def hiddenLineEnd? (cs : List Char) : Option (List Char) :=
  (newline (skipBlanks cs)).map skipWhite

/-- The rest of a string on several lines, after the characters in `read`, last first. -/
def longRest (quote : Char) (escapes : Bool) :
    Nat → List Char → List Char → Option (String × List Char)
  | 0, _, _ => none
  | fuel + 1, read, cs =>
    match closing? quote cs with
    | some (content, rest) =>
      some (String.ofList (read.reverse ++ List.replicate content quote), rest)
    | none =>
      match cs with
      | [] => none
      | c :: rest =>
        if escapes && c = '\\' then
          match hiddenLineEnd? rest with
          | some rest => longRest quote escapes fuel read rest
          | none => (escape? rest).bind fun r => longRest quote escapes fuel (r.1 :: read) r.2
        else
          match newline cs with
          | some rest => longRest quote escapes fuel ('\n' :: read) rest
          | none => if isPlain c then longRest quote escapes fuel (c :: read) rest else none

def string (cs : List Char) : Option (String × List Char) :=
  match cs with
  | '"' :: '"' :: '"' :: rest =>
    longRest '"' true (rest.length + 1) [] ((newline rest).getD rest)
  | '"' :: rest => basicRest (rest.length + 1) [] rest
  | '\'' :: '\'' :: '\'' :: rest =>
    longRest '\'' false (rest.length + 1) [] ((newline rest).getD rest)
  | '\'' :: rest => literalRest rest
  | _ => none

def isBareKeyChar (c : Char) : Bool :=
  ('A' ≤ c && c ≤ 'Z') || ('a' ≤ c && c ≤ 'z') || ('0' ≤ c && c ≤ '9') || c = '_' || c = '-'

def simpleKey (cs : List Char) : Option (String × List Char) :=
  match cs with
  | '"' :: rest => basicRest (rest.length + 1) [] rest
  | '\'' :: rest => literalRest rest
  | cs =>
    match cs.takeWhile isBareKeyChar with
    | [] => none
    | word => some (String.ofList word, cs.drop word.length)

/-- Simple keys between dots, with blanks around each. -/
def dottedKey : Nat → List Char → Option (List String × List Char)
  | 0, _ => none
  | fuel + 1, cs => do
    let (key, rest) ← simpleKey (skipBlanks cs)
    match skipBlanks rest with
    | '.' :: rest =>
      let (keys, rest) ← dottedKey fuel rest
      return (key :: keys, rest)
    | rest => return ([key], rest)

/-- Keys and nested values have fewer levels than this. -/
def levelLimit : Nat := 80

/-- A key as the path of tables to it and its last part. -/
def key (cs : List Char) : Option (List String × String × List Char) := do
  let (keys, rest) ← dottedKey (cs.length + 1) cs
  if levelLimit ≤ keys.length then none
  return (keys.dropLast, ← keys.getLast?, rest)

end Toml
end LogicResynthesis
