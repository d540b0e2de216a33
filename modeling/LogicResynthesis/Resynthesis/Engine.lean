import LogicResynthesis.IndexList.Decoding
import LogicResynthesis.Library.BuiltIn
import LogicResynthesis.Library.ClassIndex

/-!
# The resynthesis engine

An engine holds a library of circuits over exactly four inputs and the index of
its nodes by class. It is built from an index list. Of several mistakes in a
list, a wrong length is reported first, then a wrong number of inputs, then the
first undefined literal.
-/

namespace LogicResynthesis

def libraryInputs : Nat := 4

theorem libraryInputs_lt : libraryInputs < 256 := by decide

inductive EngineError
  | decode (cause : DecodeError)
  | inputCount (got : Nat)
  | fault (cause : Fault)
deriving DecidableEq, Repr

/-- The text of an error; a fault has one only if it is announced. -/
def EngineError.message : EngineError → String
  | decode e => s!"malformed library encoding: {e.message}"
  | inputCount n => s!"library must have 4 primary inputs; encoding declares {n}"
  | fault f => f.message?.getD ""

structure Engine where
  library : Xag
  index : ClassIndex
  /-- Whether the statistics are logged at the end. -/
  verbose : Bool

namespace Engine

def ofWords (verbose : Bool) (words : List UInt32) : Except EngineError Engine :=
  match IndexList.ofWords words with
  | .error e => .error (.decode e)
  | .ok l =>
    if l.inputs ≠ libraryInputs then .error (.inputCount l.inputs)
    else
      match l.decodeInto Xag.empty with
      | (.error e, _) => .error (.decode e)
      | (.ok _, library) =>
        match ClassIndex.ofXag? .standard library with
        | .error f => .error (.fault f)
        | .ok index => .ok ⟨library, index, verbose⟩

def builtIn (verbose : Bool) : Except EngineError Engine := ofWords verbose BuiltIn.words

end Engine

end LogicResynthesis
