import LogicResynthesis.Fault
import LogicResynthesis.Text.Dyadic
import LogicResynthesis.Text.Numeral

/-!
# Durations

A length of time in whole seconds and nanoseconds. Nanoseconds beyond a second
carry into the seconds, which have 64 bits.
-/

namespace LogicResynthesis

structure Duration where
  seconds : Nat
  nanoseconds : Nat
  seconds_lt : seconds < Text.wordBound
  nanoseconds_lt : nanoseconds < 1000000000
deriving DecidableEq

namespace Duration

def zero : Duration := ⟨0, 0, by decide, by decide⟩

def ofParts? (seconds nanoseconds : Nat) : Except Fault Duration :=
  if h : seconds + nanoseconds / 1000000000 < Text.wordBound then
    .ok ⟨seconds + nanoseconds / 1000000000, nanoseconds % 1000000000, h,
      Nat.mod_lt _ (by decide)⟩
  else .error .durationOverflow

def ofNanoseconds? (n : Nat) : Except Fault Duration := ofParts? 0 n

/-- The duration in seconds: seconds and fraction are each brought to 53 significant bits,
and so is their sum. -/
def inSeconds (d : Duration) : Text.Dyadic :=
  (Text.Dyadic.nearest d.seconds 1).add (Text.Dyadic.nearest d.nanoseconds 1000000000)

/-- The seconds as a decimal fraction, without zeros at the end but one. -/
def toDecimal (d : Duration) : String :=
  let digits := Text.padZeros 9 (toString d.nanoseconds).toList
  let kept := (digits.reverse.dropWhile (· = '0')).reverse
  let fraction := if kept.isEmpty then ['0'] else kept
  s!"{d.seconds}.{String.ofList fraction}"

end Duration

end LogicResynthesis
