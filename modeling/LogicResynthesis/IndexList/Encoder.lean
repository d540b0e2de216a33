import LogicResynthesis.Fault
import LogicResynthesis.IndexList.Basic

/-!
# Encoding a circuit gate by gate

An encoder collects gates and outputs over a fixed number of inputs and hands
out the literal of each gate. The literals of an AND gate are stored with the
smaller one first and those of an XOR gate with the larger one first, which
tells them apart; an XOR of a literal with itself therefore has no encoding.
-/

namespace LogicResynthesis

structure Encoder where
  inputs : Nat
  gates : Array (UInt32 × UInt32)
  outputs : Array UInt32
  inputs_lt : inputs < 256

namespace Encoder

def ofInputs? (inputs : Nat) : Except Fault Encoder :=
  if h : inputs < 256 then .ok ⟨inputs, #[], #[], h⟩ else .error (.tooManyEncodedInputs inputs)

variable (e : Encoder)

def inputLiteral? (i : Nat) : Except Fault UInt32 :=
  if i < e.inputs then .ok (UInt32.ofNat (2 * (i + 1))) else .error (.noEncodedInput i e.inputs)

def nextLiteral : UInt32 := UInt32.ofNat (2 * (1 + e.inputs + e.gates.size))

def addAnd (a b : UInt32) : UInt32 × Encoder :=
  (e.nextLiteral, { e with gates := e.gates.push (min a b, max a b) })

def addXor? (a b : UInt32) : Except Fault (UInt32 × Encoder) :=
  if a = b then .error (.repeatedXorLiteral a.toNat)
  else .ok (e.nextLiteral, { e with gates := e.gates.push (max a b, min a b) })

def addOutput (literal : UInt32) : Encoder := { e with outputs := e.outputs.push literal }

/-- The index list of the gates and outputs collected so far. -/
def build? : Except Fault IndexList :=
  if hg : e.gates.size < 65536 then
    if ho : e.outputs.size < 256 then
      .ok {
        inputs := e.inputs
        gates := e.gates.toList
        outputs := e.outputs.toList
        inputs_lt := e.inputs_lt
        gates_lt := by simpa using hg
        outputs_lt := by simpa using ho }
    else .error (.tooManyEncodedOutputs e.outputs.size)
  else .error (.tooManyEncodedGates e.gates.size)

end Encoder

end LogicResynthesis
