import LogicResynthesis.Dag.PostOrder
import LogicResynthesis.Signal

/-!
# Netlists of AND gates

A netlist is an AND-inverter graph with named inputs and outputs. Its nodes are
literals, named inputs and two-input AND gates in creation order; an input or
output is a name with a signal, which may be a complement. The live nodes are
those below an output, in post-order.
-/

namespace LogicResynthesis
namespace Aig

inductive Node
  | literal (value : Bool)
  | input (name : String)
  | and (a b : Signal)
deriving DecidableEq, Repr

namespace Node

def fanins : Node → List Signal
  | literal _ | input _ => []
  | and a b => [a, b]

def isAnd : Node → Bool
  | and _ _ => true
  | _ => false

end Node

/-- A named connection of a netlist. -/
structure Port where
  name : String
  signal : Signal
deriving DecidableEq, Repr

structure Netlist where
  name : String
  inputs : Array Port
  outputs : Array Port
  nodes : Array Node

def node? (nodes : Array Node) (n : Nat) : Except Fault Node :=
  match nodes[n]? with
  | some node => .ok node
  | none => .error (.noSuchNode n nodes.size)

/-- The fanin nodes of a node, in operand order. -/
def faninNodes (nodes : Array Node) (n : Nat) : Except Fault (List Nat) :=
  (node? nodes n).map fun node => node.fanins.map (·.node)

/-- The cones of some nodes in post-order, without the nodes that are done. -/
def postOrder (nodes : Array Node) (done : Nat → Bool) (roots : List Nat) :
    Except Fault (List Nat) :=
  Dag.postOrder nodes.size (faninNodes nodes) done roots

namespace Netlist

variable (g : Netlist)

def liveNodes : Except Fault (List Nat) :=
  postOrder g.nodes (fun _ => false) (g.outputs.toList.map (·.signal.node))

def isGate (n : Nat) : Bool := (g.nodes[n]?.map Node.isAnd).getD false

/-- The AND gates below the outputs, in post-order. -/
def liveGates : Except Fault (List Nat) := g.liveNodes.map (·.filter g.isGate)

def numLiveGates : Except Fault Nat := g.liveGates.map List.length

end Netlist

end Aig
end LogicResynthesis
