import Std.Data.HashMap
import LogicResynthesis.Aig.Netlist

/-!
# Structural classes of nodes

Nodes that are built alike have one class: literals with one value, an input
with itself only, and gates whose operands agree, in either order, in class and
complement. Classes are numbered as they are met, by interning the shape of each
node over the classes of its operands. The logic depth of a node is the length
of the longest chain of gates below it.

Nodes can also be fed one by one. The shallowest fed node of a class stands for it,
and answers for every later one of the class that is no shallower.
-/

namespace LogicResynthesis
namespace Aig

/-- How a node is built from the classes of its operands. -/
inductive Shape
  | literal (value : Bool)
  /-- Inputs differ even when they share a name. -/
  | input (node : Nat)
  /-- Two operand classes with their complement flags, in order. -/
  | and (low high : Signal)
deriving DecidableEq, Hashable, Repr

structure Summary where
  depth : Nat
  structural : Nat
deriving DecidableEq, Repr

structure StructuralHash where
  classes : Std.HashMap Shape Nat
  summaries : Std.HashMap Nat Summary
  /-- The depth and the number of the node that stands for each class. -/
  shallowest : Std.HashMap Nat (Nat × Nat)

namespace StructuralHash

def empty : StructuralHash := ⟨∅, ∅, ∅⟩

/-- The number of a shape's class, a new one if the shape was not met before. -/
def classOf (h : StructuralHash) (shape : Shape) : Nat :=
  h.classes[shape]?.getD h.classes.size

/-- The shape of a gate over operands with the given classes. -/
def gateShape (a b : Signal) : Shape := if a.atMost b then .and a b else .and b a

theorem gateShape_comm (a b : Signal) : gateShape a b = gateShape b a := by
  unfold gateShape
  by_cases hab : a.atMost b = true
  · by_cases hba : b.atMost a = true
    · rw [Signal.eq_of_atMost hab hba]
    · rw [if_pos hab, if_neg hba]
  · have hba := (Signal.atMost_total a b).resolve_left hab
    rw [if_neg hab, if_pos hba]

/-- An operand with the class of its node in place of the node. -/
def operandClass (m : Summary) (s : Signal) : Signal := ⟨m.structural, s.negated⟩

def summary? (h : StructuralHash) (n : Nat) : Except Fault Summary :=
  match h.summaries[n]? with
  | some m => .ok m
  | none => .error (.nodeNotReady n)

/-- The shape and depth of a node whose operands have summaries. -/
def measure (h : StructuralHash) (n : Nat) : Node → Except Fault (Shape × Nat)
  | .literal b => .ok (.literal b, 0)
  | .input _ => .ok (.input n, 0)
  | .and a b => do
    let ma ← h.summary? a.node
    let mb ← h.summary? b.node
    return (gateShape (operandClass ma a) (operandClass mb b), max ma.depth mb.depth + 1)

def record (h : StructuralHash) (n : Nat) (shape : Shape) (depth : Nat) : StructuralHash :=
  let c := h.classOf shape
  { h with
    classes := h.classes.insertIfNew shape c
    summaries := h.summaries.insert n ⟨depth, c⟩ }

def summarizeNode (nodes : Array Node) (h : StructuralHash) (n : Nat) :
    Except Fault StructuralHash := do
  let (shape, depth) ← h.measure n (← node? nodes n)
  return h.record n shape depth

/-- The summary of a node; the parts of its cone not met before are summarized first. -/
def summarize (h : StructuralHash) (nodes : Array Node) (n : Nat) :
    Except Fault (Summary × StructuralHash) := do
  let order ← postOrder nodes (h.summaries.contains ·) [n]
  let h ← order.foldlM (summarizeNode nodes) h
  return (← h.summary? n, h)

/-- The registered node of a class, unless it is deeper than the given summary says. -/
def known? (h : StructuralHash) (m : Summary) : Option Nat :=
  match h.shallowest[m.structural]? with
  | some (depth, known) => if depth ≤ m.depth then some known else none
  | none => none

def register (h : StructuralHash) (n : Nat) (m : Summary) : StructuralHash :=
  { h with shallowest := h.shallowest.insert m.structural (m.depth, n) }

/-- Returns a registered node of the same class that is no deeper; registers the node if there is
none. -/
def feed (h : StructuralHash) (nodes : Array Node) (n : Nat) :
    Except Fault (Option Nat × StructuralHash) := do
  let (m, h) ← h.summarize nodes n
  match h.known? m with
  | some known => return (some known, h)
  | none => return (none, h.register n m)

end StructuralHash

end Aig
end LogicResynthesis
