import LogicResynthesis.TruthTable.Table4
import LogicResynthesis.Xag.Basic

/-!
# Functions of the nodes of an XAG

Every node is simulated over four variables in creation order. Input `i` is
variable `i`; inputs past the fourth have no variable and are constant `false`.
A gate that names a node outside the graph stops the simulation; one that names
a later node reads it as constant `false`.
-/

namespace LogicResynthesis
namespace Xag

/-- The function of input `i`. -/
def inputTable (i : Nat) : Table4 :=
  if h : i < 4 then Table4.projection ⟨i, h⟩ else .zero

/-- The function of a signal, given those of the first nodes of a graph of `size`. -/
def readTable? (size : Nat) (tables : Array Table4) (s : Signal) : Except Fault Table4 :=
  if s.node < size then .ok ((tables.getD s.node .zero).complementIf s.negated)
  else .error (.noSuchNode s.node size)

def nodeTable? (size : Nat) (tables : Array Table4) : Node → Except Fault Table4
  | .constant => .ok .zero
  | .input i => .ok (inputTable i)
  | .and a b => do return (← readTable? size tables a).conj (← readTable? size tables b)
  | .xor a b => do return (← readTable? size tables a).exclusiveOr (← readTable? size tables b)

def tables? (g : Xag) : Except Fault (Array Table4) :=
  g.nodes.foldlM (fun tables node => do return tables.push (← nodeTable? g.size tables node)) #[]

def signalTable? (g : Xag) (s : Signal) : Except Fault Table4 := do
  readTable? g.size (← g.tables?) s

end Xag
end LogicResynthesis
