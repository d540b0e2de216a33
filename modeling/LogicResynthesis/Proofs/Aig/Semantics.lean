import LogicResynthesis.Aig.Simulation
import LogicResynthesis.Proofs.CreationOrder

/-!
# The function of a signal of a netlist

The value of a signal is given for every assignment of the inputs. In a netlist
whose gates come after their operands it satisfies the equations of the gates,
evaluation returns it without a fault, and it does not change when the netlist
grows.
-/

namespace LogicResynthesis
namespace Aig

/-- The value of a node, given those of the earlier nodes and of the inputs by their nodes. -/
def entryValue (inputValue : Nat → Bool) (values : Array Bool) : Node → Bool
  | .literal b => b
  | .input _ => inputValue values.size
  | .and a b => readValue values a && readValue values b

/-- The value of a signal when input nodes have the given values. -/
def value (nodes : Array Node) (inputValue : Nat → Bool) (s : Signal) : Bool :=
  signalValue (entryValue inputValue) nodes s

/-- Every gate comes after its operands. -/
def Ordered (nodes : Array Node) : Prop := InOrder Node.fanins nodes

theorem Ordered.operands_lt {nodes : Array Node} (h : Ordered nodes) {n : Nat} {a b : Signal}
    (hn : nodes[n]? = some (.and a b)) : a.node < n ∧ b.node < n :=
  ⟨h n _ hn a (by simp [Node.fanins]), h n _ hn b (by simp [Node.fanins])⟩

section Value

variable {nodes : Array Node} (inputValue : Nat → Bool)

@[simp] theorem value_complement (s : Signal) :
    value nodes inputValue s.complement = !value nodes inputValue s :=
  signalValue_complement _ s

theorem value_complementIf (s : Signal) (b : Bool) :
    value nodes inputValue (s.complementIf b) = (value nodes inputValue s ^^ b) :=
  signalValue_complementIf _ s b

theorem value_eq_ofNode (s : Signal) :
    value nodes inputValue s = (value nodes inputValue (.ofNode s.node) ^^ s.negated) :=
  signalValue_eq_ofNode _ s

theorem value_literal {n : Nat} {b : Bool} (h : nodes[n]? = some (.literal b)) :
    value nodes inputValue (.ofNode n) = b :=
  signalValue_ofNode _ h

theorem value_input {n : Nat} {name : String} (h : nodes[n]? = some (.input name)) :
    value nodes inputValue (.ofNode n) = inputValue n := by
  have hn := (Array.getElem?_eq_some_iff.mp h).1
  rw [value, signalValue_ofNode _ h, entryValue, size_tabulate,
    List.length_take_of_le (by simpa using Nat.le_of_lt hn)]

theorem value_and (hordered : Ordered nodes) {n : Nat} {a b : Signal}
    (h : nodes[n]? = some (.and a b)) :
    value nodes inputValue (.ofNode n) =
      (value nodes inputValue a && value nodes inputValue b) := by
  obtain ⟨ha, hb⟩ := hordered.operands_lt h
  rw [value, signalValue_ofNode _ h, entryValue, readValue_take _ h ha, readValue_take _ h hb]
  rfl

theorem value_constant (h : nodes[0]? = some (.literal false)) (b : Bool) :
    value nodes inputValue (.constant b) = b := by
  rw [value_eq_ofNode]
  have hzero := value_literal inputValue h
  simp [Signal.constant, hzero]

end Value

theorem value_of_prefix {nodes nodes' : Array Node} (h : nodes.toList <+: nodes'.toList)
    {ρ ρ' : Nat → Bool} (hρ : ∀ n < nodes.size, ρ' n = ρ n) {s : Signal}
    (hs : s.node < nodes.size) : value nodes' ρ' s = value nodes ρ s := by
  refine signalValue_of_prefix h ?_ hs
  intro table node hsize
  cases node with
  | literal b => rfl
  | input name => exact hρ table.size hsize
  | and a b => rfl

namespace Netlist

variable (g : Netlist)

/-- The values of the inputs in order, when input `i` has the value `a i`. -/
def inputValues (a : Nat → Bool) : List Bool := (List.range g.inputs.size).map a

/-- The value of an input node; one that no input entry names is `false`. -/
def nodeInput (a : Nat → Bool) (n : Nat) : Bool :=
  (bound (· ^^ ·) g.inputs.toList (g.inputValues a) n).getD false

/-- The value of a signal when input `i` has the value `a i`. -/
def value (a : Nat → Bool) (s : Signal) : Bool := Aig.value g.nodes (g.nodeInput a) s

/-- The value of a signal as evaluation finds it. -/
def value? (a : Nat → Bool) (s : Signal) : Except Fault Bool := do
  let e ← g.eval (g.inputValues a)
  Evaluation.read? g.nodes.size e.nodes s

/-- Gates come after their operands and outputs name nodes of the netlist. -/
structure Closed : Prop where
  ordered : Ordered g.nodes
  outputs_lt : ∀ p ∈ g.outputs.toList, p.signal.node < g.nodes.size

variable {g}

theorem read?_of_lt {size : Nat} {values : Array Bool} {s : Signal} (h : s.node < size) :
    Evaluation.read? size values s = .ok (readValue values s) := by
  rw [Evaluation.read?, if_pos h]
  rfl

theorem nodeValue?_eq (h : Ordered g.nodes) (inputValue : Nat → Option Bool) {n : Nat}
    {node : Node} (hnode : g.nodes[n]? = some node) (values : Array Bool) :
    Evaluation.nodeValue? g.nodes.size inputValue values node =
      .ok (entryValue (fun n => (inputValue n).getD false) values node) := by
  cases node with
  | literal b => rfl
  | input name => rfl
  | and a b =>
    have hn := (Array.getElem?_eq_some_iff.mp hnode).1
    obtain ⟨ha, hb⟩ := h.operands_lt hnode
    rw [Evaluation.nodeValue?, read?_of_lt (Nat.lt_trans ha hn), read?_of_lt (Nat.lt_trans hb hn),
      entryValue]
    cases readValue values a <;> rfl

theorem nodeValues?_eq (h : Ordered g.nodes) (inputValue : Nat → Option Bool) :
    Evaluation.nodeValues? g.nodes inputValue =
      .ok (tabulate (entryValue fun n => (inputValue n).getD false) g.nodes.toList) := by
  rw [Evaluation.nodeValues?, ← Array.foldlM_toList]
  apply foldlM_eq_tabulate
  intro n node hnode
  exact nodeValue?_eq h inputValue (by simpa using hnode) _

theorem mapM_eq_ok {α β : Type} {f : α → Except Fault β} {g : α → β} {xs : List α}
    (h : ∀ x ∈ xs, f x = .ok (g x)) : xs.mapM f = .ok (xs.map g) := by
  induction xs with
  | nil => rfl
  | cons x xs ih =>
    rw [List.mapM_cons, h x List.mem_cons_self, ih fun y hy => h y (List.mem_cons_of_mem _ hy)]
    rfl

theorem Closed.eval_eq (h : g.Closed) (a : Nat → Bool) :
    g.eval (g.inputValues a) =
      .ok ⟨g.outputs.toList.map fun p => g.value a p.signal,
        tabulate (entryValue (g.nodeInput a)) g.nodes.toList⟩ := by
  have hlength : ¬(g.inputValues a).length ≠ g.inputs.size := by simp [inputValues]
  have houtputs : (g.outputs.toList.mapM fun p => Evaluation.read? g.nodes.size
        (tabulate (entryValue (g.nodeInput a)) g.nodes.toList) p.signal) =
      .ok (g.outputs.toList.map fun p => g.value a p.signal) :=
    mapM_eq_ok fun p hp => read?_of_lt (h.outputs_lt p hp)
  rw [eval, if_neg hlength, nodeValues?_eq h.ordered]
  exact congrArg (· >>= fun outputs => Except.ok (Evaluation.mk outputs _)) houtputs

theorem Closed.value?_eq (h : g.Closed) (a : Nat → Bool) {s : Signal} (hs : s.node < g.nodes.size) :
    g.value? a s = .ok (g.value a s) := by
  rw [value?, h.eval_eq]
  exact read?_of_lt hs

@[simp] theorem value_complement (a : Nat → Bool) (s : Signal) :
    g.value a s.complement = !g.value a s := Aig.value_complement _ s

theorem value_complementIf (a : Nat → Bool) (s : Signal) (b : Bool) :
    g.value a (s.complementIf b) = (g.value a s ^^ b) := Aig.value_complementIf _ s b

theorem nodeInput_push {inputs : Array Port} {name : String} {k : Nat}
    (hinputs : g.inputs = inputs.push ⟨name, .ofNode k⟩) {g₀ : Netlist} (h₀ : g₀.inputs = inputs)
    (a : Nat → Bool) (n : Nat) :
    g.nodeInput a n = if n = k then a inputs.size else g₀.nodeInput a n := by
  have hvalues : g.inputValues a = g₀.inputValues a ++ [a inputs.size] := by
    simp [inputValues, hinputs, h₀, List.range_succ]
  have hlength : g₀.inputs.toList.length = (g₀.inputValues a).length := by simp [inputValues]
  have hentries : g.inputs.toList.zip (g.inputValues a) =
      g₀.inputs.toList.zip (g₀.inputValues a) ++ [(⟨name, .ofNode k⟩, a inputs.size)] := by
    rw [hvalues, hinputs, Array.toList_push, ← h₀, List.zip_append hlength]
    rfl
  unfold nodeInput bound
  rw [hentries, List.reverse_append, List.reverse_singleton, List.singleton_append]
  by_cases hn : n = k
  · rw [if_pos hn, List.find?_cons_of_pos (by simp [Signal.ofNode, hn])]
    simp [Signal.ofNode]
  · rw [if_neg hn, List.find?_cons_of_neg (by simp [Signal.ofNode, Ne.symm hn])]

end Netlist

end Aig
end LogicResynthesis
