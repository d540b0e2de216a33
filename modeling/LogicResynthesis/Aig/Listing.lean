import LogicResynthesis.Aig.Netlist

/-!
# Netlist listings

A netlist is written as a straight-line program: a heading with the names of the
inputs and outputs, a line for each live AND gate in post-order, and a line for
each output. Gates are named by their numbers, inputs by their own names, and
literals appear by value.
-/

namespace LogicResynthesis
namespace Aig

namespace Listing

/-- The complement of an expression that is not a literal. -/
def negateIf (text : String) (b : Bool) : String := if b then s!"not({text})" else text

def literal (b : Bool) : String := if b then "true" else "false"

def operand (nodes : Array Node) (s : Signal) : Except Fault String := do
  match ← node? nodes s.node with
  | .input name => return negateIf name s.negated
  | .literal value => return literal (value ^^ s.negated)
  | .and _ _ => return negateIf s!"%{s.node}" s.negated

def portNames (ports : Array Port) : String :=
  ", ".intercalate (ports.toList.map (·.name))

def heading (g : Netlist) : String :=
  s!"fn {g.name}({portNames g.inputs}) -> ({portNames g.outputs}) \x7b"

def gateLine (nodes : Array Node) (n : Nat) : Except Fault String := do
  match ← node? nodes n with
  | .and a b => return s!"  %{n} = and({← operand nodes a}, {← operand nodes b})"
  | _ => throw (.nodeNotReady n)

def outputLine (nodes : Array Node) (p : Port) : Except Fault String := do
  return s!"  {p.name} = {← operand nodes p.signal}"

end Listing

namespace Netlist

/-- The lines of a netlist: heading, gates, outputs and the closing brace. -/
def lines (g : Netlist) : Except Fault (List String) := do
  let gates ← (← g.liveGates).mapM (Listing.gateLine g.nodes)
  let outputs ← g.outputs.toList.mapM (Listing.outputLine g.nodes)
  return Listing.heading g :: gates ++ outputs ++ ["\x7d"]

def text (g : Netlist) : Except Fault String :=
  g.lines.map ("\n".intercalate ·)

end Netlist

end Aig
end LogicResynthesis
