import LogicResynthesis.IndexList.Basic
import LogicResynthesis.Xag.Basic

/-!
# Circuits from index lists

The circuit of an index list is built inside a given graph. Fresh inputs are
created there, and gates go through the folding and sharing constructors, so the
graph may gain fewer gates than the list has. The outcome is the signal of every
node of the list, or the first undefined literal; the graph keeps what was built
up to that point, but outputs are added only when all of them are defined.
-/

namespace LogicResynthesis
namespace IndexList

/-- The signal of a literal at a word position, given those of the nodes so far. -/
def resolve (signals : Array Signal) (position : Nat) (literal : UInt32) :
    Except DecodeError Signal :=
  match signals[Literal.node literal]? with
  | some s => .ok (s.complementIf (Literal.negated literal))
  | none => .error (.undefinedLiteral position literal signals.size)

/-- The signals of literals at consecutive word positions. -/
def resolveAll (signals : Array Signal) : Nat → List UInt32 → Except DecodeError (List Signal)
  | _, [] => .ok []
  | position, literal :: rest => do
    let s ← resolve signals position literal
    return s :: (← resolveAll signals (position + 1) rest)

def addInputs : Nat → Array Signal → Xag → Array Signal × Xag
  | 0, signals, g => (signals, g)
  | n + 1, signals, g =>
    let r := g.addInput
    addInputs n (signals.push r.1) r.2

/-- Adds the gate of a literal pair, whose operands are `x` and `y`. -/
def addGate (g : Xag) (pair : UInt32 × UInt32) (x y : Signal) : Signal × Xag :=
  if pair.2 < pair.1 then g.addXor x y else g.addAnd x y

/-- Builds gates whose first word is at `position`. -/
def buildGates : Nat → List (UInt32 × UInt32) → Array Signal → Xag →
    Except DecodeError (Array Signal) × Xag
  | _, [], signals, g => (.ok signals, g)
  | position, pair :: rest, signals, g =>
    match resolve signals position pair.1 with
    | .error e => (.error e, g)
    | .ok x =>
      match resolve signals (position + 1) pair.2 with
      | .error e => (.error e, g)
      | .ok y =>
        let r := addGate g pair x y
        buildGates (position + 2) rest (signals.push r.1) r.2

/-- Builds the circuit inside `g`. -/
def decodeInto (l : IndexList) (g : Xag) : Except DecodeError (Array Signal) × Xag :=
  let start := addInputs l.inputs #[.constant false] g
  match buildGates 1 l.gates start.1 start.2 with
  | (.error e, g) => (.error e, g)
  | (.ok signals, g) =>
    match resolveAll signals (1 + 2 * l.gates.length) l.outputs with
    | .error e => (.error e, g)
    | .ok outputs => (.ok signals, outputs.foldl Xag.addOutput g)

def decode (words : List UInt32) : Except DecodeError Xag := do
  let l ← ofWords words
  match l.decodeInto Xag.empty with
  | (.ok _, g) => return g
  | (.error e, _) => throw e

theorem size_addInputs (n : Nat) (signals : Array Signal) (g : Xag) :
    (addInputs n signals g).1.size = signals.size + n := by
  induction n generalizing signals g with
  | zero => rfl
  | succ n ih => simp only [addInputs, ih, Array.size_push]; omega

theorem resolve_eq_error_iff (signals : Array Signal) (position : Nat) (literal : UInt32)
    (e : DecodeError) :
    resolve signals position literal = .error e ↔
      signals.size ≤ Literal.node literal ∧
        e = .undefinedLiteral position literal signals.size := by
  unfold resolve
  split
  · next s h =>
    have := (Array.getElem?_eq_some_iff.1 h).1
    simp
    omega
  · next h =>
    have := Array.getElem?_eq_none_iff.1 h
    simp [this, eq_comm]

end IndexList
end LogicResynthesis
