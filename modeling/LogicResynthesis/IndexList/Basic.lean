/-!
# Index lists

A circuit as a list of 32-bit words: a header that holds the numbers of gates,
outputs and inputs, one pair of literals for each gate in creation order, then
one literal for each output. A literal is twice a node number, plus one for a
complement. Node 0 is the constant, nodes 1 to `inputs` are the inputs, and the
gates follow. A pair whose first literal is the larger one is an XOR gate, any
other pair is an AND gate.

Reading checks that the words are as many as the header implies. The literals
are checked when the list is decoded into a graph.
-/

namespace LogicResynthesis

namespace Literal

def node (w : UInt32) : Nat := w.toNat / 2

def negated (w : UInt32) : Bool := w.toNat % 2 = 1

end Literal

inductive DecodeError
  | empty
  | truncated (expected got : Nat)
  | trailingData (expected got : Nat)
  /-- A literal names a node that is not defined where the literal stands. -/
  | undefinedLiteral (position : Nat) (literal : UInt32) (defined : Nat)
deriving DecidableEq, Repr

def DecodeError.message : DecodeError → String
  | empty => "index list is empty; missing header word"
  | truncated e n => s!"index list is truncated: header implies {e} words, got {n}"
  | trailingData e n => s!"index list has trailing data: header implies {e} words, got {n}"
  | undefinedLiteral p l d =>
      s!"literal {l} at word {p} references node {Literal.node l} but only {d} nodes are defined"

structure IndexList where
  inputs : Nat
  gates : List (UInt32 × UInt32)
  outputs : List UInt32
  inputs_lt : inputs < 256
  gates_lt : gates.length < 65536
  outputs_lt : outputs.length < 256
deriving DecidableEq

namespace IndexList

/-- Neighbouring words as pairs; a last odd word is dropped. -/
def pairs : List UInt32 → List (UInt32 × UInt32)
  | a :: b :: rest => (a, b) :: pairs rest
  | _ => []

theorem length_pairs_le : ∀ ws : List UInt32, 2 * (pairs ws).length ≤ ws.length
  | [] => by simp [pairs]
  | [_] => by simp [pairs]
  | _ :: _ :: rest => by
    have := length_pairs_le rest
    simp only [pairs, List.length_cons]
    omega

def unpairs (gates : List (UInt32 × UInt32)) : List UInt32 :=
  gates.flatMap fun p => [p.1, p.2]

theorem pairs_unpairs (gates : List (UInt32 × UInt32)) :
    pairs (unpairs gates) = gates := by
  induction gates with
  | nil => rfl
  | cons p rest ih => simpa [unpairs, pairs] using ih

def header (inputs gates outputs : Nat) : UInt32 :=
  UInt32.ofNat (gates * 65536 + outputs * 256 + inputs)

def ofWords : List UInt32 → Except DecodeError IndexList
  | [] => .error .empty
  | h :: body =>
    let gates := h.toNat / 65536
    let outputs := h.toNat / 256 % 256
    let expected := 1 + 2 * gates + outputs
    let got := body.length + 1
    if short : got < expected then .error (.truncated expected got)
    else if long : expected < got then .error (.trailingData expected got)
    else .ok {
      inputs := h.toNat % 256
      gates := pairs (body.take (2 * gates))
      outputs := body.drop (2 * gates)
      inputs_lt := Nat.mod_lt _ (by decide)
      gates_lt := by
        have h₁ := length_pairs_le (body.take (2 * gates))
        have h₂ := h.toNat_lt
        have h₃ : (body.take (2 * gates)).length ≤ 2 * gates := List.length_take_le _ _
        omega
      outputs_lt := by
        have : outputs < 256 := Nat.mod_lt _ (by decide)
        simp only [List.length_drop]
        omega }

def toWords (l : IndexList) : List UInt32 :=
  header l.inputs l.gates.length l.outputs.length :: (unpairs l.gates ++ l.outputs)

theorem length_unpairs (gates : List (UInt32 × UInt32)) :
    (unpairs gates).length = 2 * gates.length := by
  induction gates with
  | nil => rfl
  | cons p rest ih =>
    simp only [unpairs, List.flatMap_cons, List.length_append, List.length_cons] at ih ⊢
    simp only [List.length_nil]
    omega

theorem length_toWords (l : IndexList) :
    l.toWords.length = 1 + 2 * l.gates.length + l.outputs.length := by
  simp only [toWords, List.length_cons, List.length_append, length_unpairs]
  omega

end IndexList

end LogicResynthesis
