import LogicResynthesis.Aig.Netlist
import LogicResynthesis.TruthTable.Table4

/-!
# Values of a netlist

A netlist is evaluated on one value for each of its inputs, or simulated on one
function of four variables for each. The value given for an input entry is
brought to the entry's node, complemented if the entry is; a node named by
several entries takes the last one, and an input node named by none is `false`.

Evaluation sees a node that comes later as `false`, and looks at the second
operand of a gate only if the first is true. Simulation looks at both, and needs
them to come earlier.
-/

namespace LogicResynthesis
namespace Aig

/-- The value bound to node `n`: that of the last entry for it. -/
def bound {α : Type} (complementIf : α → Bool → α) (inputs : List Port) (values : List α)
    (n : Nat) : Option α :=
  ((inputs.zip values).reverse.find? fun p => p.1.signal.node = n).map fun p =>
    complementIf p.2 p.1.signal.negated

namespace Evaluation

/-- The value of a signal of a netlist of `size` nodes, given those of its first nodes. -/
def read? (size : Nat) (values : Array Bool) (s : Signal) : Except Fault Bool :=
  if s.node < size then .ok (values.getD s.node false ^^ s.negated)
  else .error (.noSuchNode s.node size)

def nodeValue? (size : Nat) (inputValue : Nat → Option Bool) (values : Array Bool) :
    Node → Except Fault Bool
  | .literal b => .ok b
  | .input _ => .ok ((inputValue values.size).getD false)
  | .and a b => do if ← read? size values a then read? size values b else return false

def nodeValues? (nodes : Array Node) (inputValue : Nat → Option Bool) :
    Except Fault (Array Bool) :=
  nodes.foldlM
    (fun values node => do return values.push (← nodeValue? nodes.size inputValue values node)) #[]

end Evaluation

structure Evaluation where
  outputs : List Bool
  nodes : Array Bool
deriving DecidableEq

/-- Evaluates a netlist on as many values as it has inputs. -/
def Netlist.eval (g : Netlist) (values : List Bool) : Except Fault Evaluation := do
  if values.length ≠ g.inputs.size then throw (.valueCount g.inputs.size values.length)
  let nodes ← Evaluation.nodeValues? g.nodes (bound (· ^^ ·) g.inputs.toList values)
  let outputs ← g.outputs.toList.mapM fun p => Evaluation.read? g.nodes.size nodes p.signal
  return ⟨outputs, nodes⟩

namespace Simulation

/-- The function of a signal, given those of the earlier nodes. -/
def read? (tables : Array Table4) (s : Signal) : Except Fault Table4 :=
  match tables[s.node]? with
  | some f => .ok (f.complementIf s.negated)
  | none => .error (.nodeNotReady s.node)

def nodeTable? (inputTable : Nat → Option Table4) (tables : Array Table4) :
    Node → Except Fault Table4
  | .literal b => .ok (Table4.zero.complementIf b)
  | .input _ => .ok ((inputTable tables.size).getD .zero)
  | .and a b => do return (← read? tables a).conj (← read? tables b)

end Simulation

/-- The function of a signal when input entry `i` carries `leaves[i]`. Only the nodes up to
that of the signal are looked at. -/
def simulate (nodes : Array Node) (inputs : List Port) (leaves : List Table4) (s : Signal) :
    Except Fault Table4 := do
  if nodes.size ≤ s.node then throw (.noSuchNode s.node nodes.size)
  let tables ← (nodes.toList.take (s.node + 1)).foldlM
    (fun tables node => do
      return tables.push
        (← Simulation.nodeTable? (bound Table4.complementIf inputs leaves) tables node)) #[]
  Simulation.read? tables s

end Aig
end LogicResynthesis
