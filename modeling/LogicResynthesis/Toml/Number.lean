import LogicResynthesis.Toml.Item
import LogicResynthesis.Toml.Lexical

/-!
# Numbers and dates of TOML

Whole numbers have 64 bits with sign; hexadecimal, octal and binary ones have no
sign of their own. Digits may be set apart by single underscores. A fraction or
an exponent makes a number a float, which may not exceed the largest finite one.
Dates and times are recognised by their first two or four digits.
-/

namespace LogicResynthesis
namespace Toml

def isDigit (c : Char) : Bool := '0' ≤ c && c ≤ '9'

/-- Digits of a base after the first one, single underscores between them. The run is not
well formed if an underscore is not followed by a digit. -/
def moreDigits (accept : Char → Bool) : List Char → Option (List Char × List Char)
  | '_' :: c :: cs =>
    if accept c then (moreDigits accept cs).map fun r => (c :: r.1, r.2) else none
  | '_' :: [] => none
  | c :: cs =>
    if accept c then (moreDigits accept cs).map fun r => (c :: r.1, r.2) else some ([], c :: cs)
  | [] => some ([], [])

/-- At least one digit of a base, leading zeros allowed. -/
def digitRun (accept : Char → Bool) : List Char → Option (List Char × List Char)
  | c :: cs =>
    if accept c then (moreDigits accept cs).map fun r => (c :: r.1, r.2) else none
  | [] => none

/-- A decimal whole part: a zero alone, or digits of which the first is not zero. -/
def wholeRun : List Char → Option (List Char × List Char)
  | '0' :: cs => some (['0'], cs)
  | cs => digitRun isDigit cs

/-- Whole numbers lie below this, and at or above its negative. -/
def integerBound : Nat := 9223372036854775808

def valueOf (base : Nat) (digits : List Char) : Nat := (Text.digits? base digits).getD 0

/-- A number in another base, after its mark. -/
def basedInteger (base : Nat) (cs : List Char) : Option (Item × List Char) := do
  let (digits, rest) ← digitRun (fun c => (Text.digitOf? base c).isSome) cs
  let n := valueOf base digits
  if n < integerBound then some (.integer n, rest) else none

def decimalInteger (negative : Bool) (digits : List Char) : Option Item :=
  let n := valueOf 10 digits
  if negative then if n ≤ integerBound then some (.integer (-n)) else none
  else if n < integerBound then some (.integer n) else none

/-- Splits off a sign and tells whether it is a minus. -/
def splitSign : List Char → Bool × List Char
  | '+' :: cs => (false, cs)
  | '-' :: cs => (true, cs)
  | cs => (false, cs)

def exponent (cs : List Char) : Option (Int × List Char) := do
  let (negative, cs) := splitSign cs
  let (digits, rest) ← digitRun isDigit cs
  let n : Int := valueOf 10 digits
  return (if negative then -n else n, rest)

/-- Whether `mantissa * 10 ^ exponent` rounds to more than the largest finite float. -/
def exceedsFloats (mantissa : Nat) (exponent : Int) : Bool :=
  let bound := 18014398509481983 <<< 970
  let places : Int := (toString mantissa).length + exponent
  if mantissa = 0 || places < 308 then false
  else if 310 < places then true
  else bound * Nat.pow 10 (-exponent).toNat ≤ mantissa * Nat.pow 10 exponent.toNat

/-- A float with the given digits before and after the point. -/
def decimalFloat (negative : Bool) (whole fraction : List Char) (exponent : Int) : Option Item :=
  let mantissa := valueOf 10 (whole ++ fraction)
  if !negative && exceedsFloats mantissa (exponent - fraction.length) then none else some .float

/-- A decimal number: a whole number, or a float. -/
def decimal (cs : List Char) : Option (Item × List Char) := do
  let (negative, cs) := splitSign cs
  let (whole, rest) ← wholeRun cs
  match rest with
  | '.' :: rest =>
    let (fraction, rest) ← digitRun isDigit rest
    match rest with
    | c :: rest' =>
      if c = 'e' || c = 'E' then
        let (e, rest) ← exponent rest'
        return (← decimalFloat negative whole fraction e, rest)
      else return (← decimalFloat negative whole fraction 0, rest)
    | [] => return (← decimalFloat negative whole fraction 0, [])
  | c :: rest' =>
    if c = 'e' || c = 'E' then
      let (e, rest) ← exponent rest'
      return (← decimalFloat negative whole [] e, rest)
    else return (← decimalInteger negative whole, rest)
  | [] => return (← decimalInteger negative whole, [])

/-- Two digits that denote a number from `low` to `high`. -/
def twoDigits (low high : Nat) : List Char → Option (Nat × List Char)
  | a :: b :: rest =>
    if isDigit a && isDigit b then
      let n := valueOf 10 [a, b]
      if low ≤ n && n ≤ high then some (n, rest) else none
    else none
  | _ => none

def expect (c : Char) : List Char → Option (List Char)
  | d :: rest => if d = c then some rest else none
  | [] => none

def hourAndMinute (cs : List Char) : Option (List Char) := do
  let (_, cs) ← twoDigits 0 23 cs
  let cs ← expect ':' cs
  let (_, cs) ← twoDigits 0 59 cs
  return cs

/-- A time of day with seconds and an optional fraction. -/
def timeOfDay (cs : List Char) : Option (List Char) := do
  let cs ← hourAndMinute cs
  let cs ← expect ':' cs
  let (_, cs) ← twoDigits 0 60 cs
  match cs with
  | '.' :: d :: rest => if isDigit d then return rest.dropWhile isDigit else return cs
  | _ => return cs

def daysInMonth (year month : Nat) : Nat :=
  if month = 2 then
    if year % 4 = 0 && (year % 100 ≠ 0 || year % 400 = 0) then 29 else 28
  else if month = 4 || month = 6 || month = 9 || month = 11 then 30
  else 31

/-- Month and day after a year and its dash. -/
def monthAndDay (year : Nat) (cs : List Char) : Option (List Char) := do
  let (month, cs) ← twoDigits 1 12 cs
  let cs ← expect '-' cs
  let (_, cs) ← twoDigits 1 (daysInMonth year month) cs
  return cs

/-- An offset from universal time, if there is one. -/
def offset (cs : List Char) : Option (List Char) :=
  match cs with
  | 'Z' :: rest | 'z' :: rest => some rest
  | '+' :: rest | '-' :: rest => hourAndMinute rest
  | cs => some cs

/-- The time after a date, if there is one. A blank after a date need not start a time. -/
def timeAfterDate (cs : List Char) : Option (List Char) :=
  match cs with
  | c :: rest =>
    if c = 'T' || c = 't' || c = ' ' then
      match twoDigits 0 23 rest with
      | some (_, ':' :: _) => (timeOfDay rest).bind offset
      | _ => some cs
    else some cs
  | [] => some []

/-- Whether a text starts with `count` digits and then the character `c`. -/
def startsWithDigits (count : Nat) (c : Char) (cs : List Char) : Bool :=
  (cs.take count).all isDigit && cs[count]? = some c

def date (cs : List Char) : Option (List Char) :=
  (monthAndDay (valueOf 10 (cs.take 4)) (cs.drop 5)).bind timeAfterDate

def number (cs : List Char) : Option (Item × List Char) :=
  if startsWithDigits 4 '-' cs then (date cs).map (.datetime, ·)
  else if startsWithDigits 2 ':' cs then (timeOfDay cs).map (.datetime, ·)
  else
    match cs with
    | '0' :: 'x' :: rest => basedInteger 16 rest
    | '0' :: 'o' :: rest => basedInteger 8 rest
    | '0' :: 'b' :: rest => basedInteger 2 rest
    | _ =>
      match (splitSign cs).2 with
      | 'i' :: 'n' :: 'f' :: rest | 'n' :: 'a' :: 'n' :: rest => some (.float, rest)
      | _ => decimal cs

end Toml
end LogicResynthesis
