import Std.Data.HashMap
import LogicResynthesis.Fault
import LogicResynthesis.Signal

/-!
# Graphs of AND and XOR gates

Node 0 is the constant, primary inputs and two-input gates follow in creation
order, and edges carry complements. Creating a gate folds the trivial cases and
returns an existing gate with the same operands if there is one:

* the operands of an AND are put in order; `a ∧ a = a`, `a ∧ ¬a = 0`, `0 ∧ b = 0`,
  `1 ∧ b = b`;
* the complements of XOR operands move to the output; `a ⊕ a = 0`, `0 ⊕ b = b`.
-/

namespace LogicResynthesis

inductive Xag.Node
  | constant
  | input (index : Nat)
  | and (a b : Signal)
  | xor (a b : Signal)
deriving DecidableEq, Hashable, Repr

structure Xag where
  nodes : Array Xag.Node
  inputs : Array Nat
  outputs : Array Signal
  /-- The node of each gate. -/
  gateNodes : Std.HashMap Xag.Node Nat

namespace Xag

namespace Node

/-- The operands of a gate; constants and inputs have none. -/
def fanins : Node → List Signal
  | constant | input _ => []
  | and a b | xor a b => [a, b]

def inputIndex? : Node → Option Nat
  | input i => some i
  | _ => none

def isConstant : Node → Bool
  | constant => true
  | _ => false

def isXor : Node → Bool
  | xor _ _ => true
  | _ => false

end Node

def empty : Xag := ⟨#[.constant], #[], #[], ∅⟩

instance : Inhabited Xag := ⟨empty⟩

variable (g : Xag)

def size : Nat := g.nodes.size

/-- The number of AND and XOR gates. -/
def numGates : Nat := g.nodes.size - 1 - g.inputs.size

def node? (n : Nat) : Except Fault Node :=
  match g.nodes[n]? with
  | some node => .ok node
  | none => .error (.noSuchNode n g.size)

def inputNode? (i : Nat) : Except Fault Nat :=
  match g.inputs[i]? with
  | some n => .ok n
  | none => .error (.noSuchInput i g.inputs.size)

def addInput : Signal × Xag :=
  let n := g.nodes.size
  (.ofNode n, { g with nodes := g.nodes.push (.input g.inputs.size), inputs := g.inputs.push n })

/-- The node of a gate, which is created unless it exists. -/
def intern (gate : Node) : Nat × Xag :=
  match g.gateNodes[gate]? with
  | some n => (n, g)
  | none =>
    let n := g.nodes.size
    (n, { g with nodes := g.nodes.push gate, gateNodes := g.gateNodes.insert gate n })

/-- The signal that equals `a ∧ b` without a gate, for operands in order. -/
def foldAnd? (a b : Signal) : Option Signal :=
  if a.node = b.node then some (if a.negated = b.negated then a else .constant false)
  else if a.node = 0 then some (if a.negated then b else .constant false)
  else none

def addAnd (x y : Signal) : Signal × Xag :=
  let a := if x.atMost y then x else y
  let b := if x.atMost y then y else x
  match foldAnd? a b with
  | some s => (s, g)
  | none =>
    let r := g.intern (.and a b)
    (.ofNode r.1, r.2)

/-- The signal that equals `a ⊕ b` without a gate, for plain operands in order. -/
def foldXor? (a b : Signal) : Option Signal :=
  if a.node = b.node then some (.constant false)
  else if a.node = 0 then some b
  else none

def addXor (x y : Signal) : Signal × Xag :=
  let negated := x.negated ^^ y.negated
  let a := if x.node ≤ y.node then x.regular else y.regular
  let b := if x.node ≤ y.node then y.regular else x.regular
  match foldXor? a b with
  | some s => (s.complementIf negated, g)
  | none =>
    let r := g.intern (.xor a b)
    (⟨r.1, negated⟩, r.2)

def addOutput (s : Signal) : Xag := { g with outputs := g.outputs.push s }

theorem foldAnd?_self (s : Signal) : foldAnd? s s = some s := by
  simp [foldAnd?]

theorem foldAnd?_complement (s : Signal) :
    foldAnd? s s.complement = some (.constant false) := by
  simp [foldAnd?, Signal.complement]

theorem foldAnd?_eq_none_iff (a b : Signal) :
    foldAnd? a b = none ↔ a.node ≠ b.node ∧ a.node ≠ 0 := by
  unfold foldAnd?
  split
  · simp [*]
  · split <;> simp [*]

theorem addAnd_swap (x y : Signal) : g.addAnd x y = g.addAnd y x := by
  by_cases hxy : x.atMost y = true
  · by_cases hyx : y.atMost x = true
    · rw [Signal.eq_of_atMost hxy hyx]
    · simp only [addAnd, if_pos hxy, if_neg hyx]
  · have hyx := (Signal.atMost_total x y).resolve_left hxy
    simp only [addAnd, if_neg hxy, if_pos hyx]

theorem intern_fst_of_known {gate : Node} {n : Nat} (h : g.gateNodes[gate]? = some n) :
    g.intern gate = (n, g) := by
  simp [intern, h]

theorem foldXor?_eq_none_iff (a b : Signal) :
    foldXor? a b = none ↔ a.node ≠ b.node ∧ a.node ≠ 0 := by
  unfold foldXor?
  split
  · simp [*]
  · split <;> simp [*]

end Xag

end LogicResynthesis
