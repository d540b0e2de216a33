import LogicResynthesis.TruthTable.Table4

/-!
# Negations and permutations of inputs

A transform relates a function `f` to a canonical function `r`. Canonical input
`i` is driven by input `perm[i]` of `f`, complemented if that input is marked in
the polarity; the output may be complemented as well. Applying a transform goes
from `f` to `r`, unapplying it goes back.

The permutation is stored as four entries. When two of them are equal, applying
writes some canonical rows more than once, the last write standing, and leaves
the rows that are never written at `false`.
-/

namespace LogicResynthesis
namespace Npn

/-- Complements of the inputs of `f`, by their number there, and of the output. -/
structure Polarity where
  inputs : BitVec 8
  output : Bool
deriving DecidableEq, Repr

namespace Polarity

def inputNegated (p : Polarity) (i : Nat) : Bool := p.inputs.getLsbD i

/-- Four bits for the inputs and a fifth for the output. -/
def packed (p : Polarity) : BitVec 5 := BitVec.ofBool p.output ++ p.inputs.setWidth 4

end Polarity

structure Transform where
  perm : Vector (Fin 4) 4
  polarity : Polarity
deriving DecidableEq, Repr

namespace Transform

def identity : Transform := ⟨Vector.finRange 4, ⟨0, false⟩⟩

/-- A transform from four numbers, each of which has to name an input. -/
def ofEntries? (perm : Vector Nat 4) (polarity : Polarity) : Except Fault Transform := do
  let entries ← perm.mapM fun (n : Nat) =>
    if h : n < 4 then Except.ok (⟨n, h⟩ : Fin 4) else Except.error (Fault.badPermutation n)
  return ⟨entries, polarity⟩

/-- The input of `f` that drives canonical input `i`. -/
def source (t : Transform) (i : Fin 4) : Fin 4 := t.perm.get i

/-- The assignment to the canonical inputs that `x`, to the inputs of `f`, stands for. -/
def canonicalRow (t : Transform) (x : Assignment) : Assignment :=
  Assignment.ofInputs fun i => x.input (t.source i) ^^ t.polarity.inputNegated (t.source i)

/-- From `f` to its canonical function. -/
def apply (t : Transform) (f : Table4) : Table4 :=
  (List.finRange 16).foldl
    (fun r x => r.setRow (t.canonicalRow x) (f.row x ^^ t.polarity.output)) Table4.zero

/-- From the canonical function `r` back to `f`. -/
def unapply (t : Transform) (r : Table4) : Table4 :=
  Table4.ofRows fun x => r.row (t.canonicalRow x) ^^ t.polarity.output

theorem input_canonicalRow (t : Transform) (x : Assignment) (i : Fin 4) :
    (t.canonicalRow x).input i = (x.input (t.source i) ^^ t.polarity.inputNegated (t.source i)) :=
  Assignment.input_ofInputs _ i

theorem row_unapply (t : Transform) (r : Table4) (x : Assignment) :
    (t.unapply r).row x = (r.row (t.canonicalRow x) ^^ t.polarity.output) :=
  Table4.row_ofRows _ x

/-- The permutations of the four inputs in lexicographic order. -/
def permutations : List (Vector (Fin 4) 4) :=
  let inputs := List.finRange 4
  inputs.flatMap fun a =>
    (inputs.filter (· ≠ a)).flatMap fun b =>
      (inputs.filter fun c => c ≠ a ∧ c ≠ b).flatMap fun c =>
        (inputs.filter fun d => d ≠ a ∧ d ≠ b ∧ d ≠ c).map fun d => #v[a, b, c, d]

/-- All transforms with a permutation and four input complements: by permutation,
then by input complements as a number, then by output complement. -/
def all : List Transform :=
  permutations.flatMap fun perm =>
    (List.finRange 16).flatMap fun (mask : Fin 16) =>
      [false, true].map fun output => ⟨perm, ⟨BitVec.ofNat 8 mask.val, output⟩⟩

theorem length_permutations : permutations.length = 24 := by decide +kernel

theorem length_all : all.length = 768 := by decide +kernel

end Transform

end Npn
end LogicResynthesis
