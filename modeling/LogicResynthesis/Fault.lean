/-!
# Faults

A fault is a broken precondition: the caller asked for a row that a table does
not have, named a node that a graph does not hold, or wanted more inputs than a
format has room for. A faulting operation has no result. The few faults that
are announced to a reader have a text; the others stop silently.
-/

namespace LogicResynthesis

inductive Fault
  /-- A truth table was requested over more than six inputs. -/
  | tooManyInputs (inputs : Nat)
  /-- A four-input table has projections onto inputs 0 to 3 only. -/
  | noFourInputProjection (input : Nat)
  | noProjection (input inputs : Nat)
  /-- A word has no room for a shift by so much. -/
  | shiftTooFar (amount : Nat)
  | rowOutOfRange (row rows : Nat)
  | widthMismatch (left right : Nat)
  /-- A permutation entry names an input past the fourth. -/
  | badPermutation (entry : Nat)
  | tooManyEncodedInputs (inputs : Nat)
  | tooManyEncodedGates (gates : Nat)
  | tooManyEncodedOutputs (outputs : Nat)
  | noEncodedInput (input inputs : Nat)
  | repeatedXorLiteral (literal : Nat)
  | noSuchNode (node nodes : Nat)
  /-- A node was read before its value was known. -/
  | nodeNotReady (node : Nat)
  | noSuchInput (input inputs : Nat)
  | valueCount (expected got : Nat)
  /-- A walk over fanins came back to a node that it had not finished. -/
  | cyclicFanins
  /-- A library gate was copied before one of its fanins. -/
  | notCopied (node : Nat)
  /-- A time does not fit in 64-bit seconds. -/
  | durationOverflow
deriving DecidableEq, Repr

namespace Fault

/-- The announcement of a fault, for those that have one. -/
def message? : Fault → Option String
  | tooManyInputs n =>
      some s!"TruthTable::const0: {n} inputs exceeds the supported maximum of 6"
  | noFourInputProjection _ =>
      some "TruthTable16::var index out of range (expected 0..=3)"
  | noProjection i n => some s!"variable {i} out of range for {n} inputs"
  | tooManyEncodedInputs _ => some "at most 255 primary inputs can be encoded"
  | tooManyEncodedGates _ => some "at most 65535 gates can be encoded"
  | tooManyEncodedOutputs _ => some "at most 255 outputs can be encoded"
  | _ => none

end Fault

end LogicResynthesis
