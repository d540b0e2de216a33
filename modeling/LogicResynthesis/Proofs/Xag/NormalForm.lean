import LogicResynthesis.Proofs.Xag.Semantics

/-!
# The normal form of XAGs

The operands of a gate are two nodes in order, neither of them the constant, and
those of an XOR are plain. No gate is there twice: the table of gates has just
the gates of the graph, each under its own node. All nodes but the constant and
the inputs are gates.
-/

namespace LogicResynthesis
namespace Xag

instance : DecidablePred Node.IsGate
  | .constant | .input _ => isFalse id
  | .and _ _ | .xor _ _ => isTrue trivial

/-- The operands of a gate are as the constructors leave them. -/
def Node.Normal : Node → Prop
  | .constant | .input _ => True
  | .and x y => 0 < x.node ∧ x.node < y.node
  | .xor x y => 0 < x.node ∧ x.node < y.node ∧ x.negated = false ∧ y.negated = false

def countGates (nodes : Array Node) : Nat := nodes.countP fun node => decide node.IsGate

/-- Gates are in normal form, and the table of gates has each of them and nothing else. -/
structure Normal (g : Xag) : Prop extends g.WellFormed where
  normal : ∀ (n : Nat) (node : Node), g.nodes[n]? = some node → node.Normal
  known : ∀ (gate : Node) (n : Nat), gate.IsGate → g.nodes[n]? = some gate →
    g.gateNodes[gate]? = some n
  isGate_of_known : ∀ (gate : Node) (n : Nat), g.gateNodes[gate]? = some n → gate.IsGate
  size_eq : g.nodes.size = 1 + g.inputs.size + countGates g.nodes

variable {g : Xag} {gate : Node} {x y : Signal}

theorem countGates_push (nodes : Array Node) (node : Node) :
    countGates (nodes.push node) = countGates nodes + if node.IsGate then 1 else 0 := by
  simp [countGates, Array.countP_push]

namespace Normal

theorem gateNodes_iff (h : g.Normal) (gate : Node) (n : Nat) :
    g.gateNodes[gate]? = some n ↔ gate.IsGate ∧ g.nodes[n]? = some gate :=
  ⟨fun hn => ⟨h.isGate_of_known gate n hn, h.gates gate n hn⟩,
    fun ⟨hgate, hn⟩ => h.known gate n hgate hn⟩

theorem gate_unique (h : g.Normal) (hgate : gate.IsGate) {n m : Nat}
    (hn : g.nodes[n]? = some gate) (hm : g.nodes[m]? = some gate) : n = m :=
  Option.some.inj ((h.known gate n hgate hn).symm.trans (h.known gate m hgate hm))

theorem numGates_eq (h : g.Normal) : g.numGates = countGates g.nodes := by
  have hsize := h.size_eq
  unfold numGates
  omega

theorem empty : Xag.empty.Normal where
  toWellFormed := wellFormed_empty
  normal n node hn := by
    have honly : ((#[] : Array Node).push .constant)[n]? = some node := hn
    rcases getElem?_push_or honly with hn | ⟨-, rfl⟩
    · simp at hn
    · trivial
  known gate n hgate hn := by
    have honly : ((#[] : Array Node).push .constant)[n]? = some gate := hn
    rcases getElem?_push_or honly with hn | ⟨-, rfl⟩
    · simp at hn
    · exact hgate.elim
  isGate_of_known gate n hn := by simp [Xag.empty] at hn
  size_eq := rfl

theorem addInput (h : g.Normal) : g.addInput.2.Normal where
  toWellFormed := wellFormed_addInput h.toWellFormed
  normal n node hn := by
    rcases getElem?_push_or hn with hn | ⟨-, rfl⟩
    · exact h.normal n node hn
    · trivial
  known gate n hgate hn := by
    rcases getElem?_push_or hn with hn | ⟨-, rfl⟩
    · exact h.known gate n hgate hn
    · exact hgate.elim
  isGate_of_known := h.isGate_of_known
  size_eq := by
    have hsize := h.size_eq
    have hinput : ¬(Node.input g.inputs.size).IsGate := id
    simp only [Xag.addInput, Array.size_push, countGates_push, if_neg hinput]
    omega

theorem addOutput (h : g.Normal) (s : Signal) : (g.addOutput s).Normal :=
  ⟨wellFormed_addOutput h.toWellFormed s, h.normal, h.known, h.isGate_of_known, h.size_eq⟩

theorem push (h : g.Normal) (hgate : gate.IsGate) (hfanins : ∀ s ∈ gate.fanins, g.Has s)
    (hnormal : gate.Normal) (hnew : g.gateNodes[gate]? = none) :
    Normal { g with
      nodes := g.nodes.push gate
      gateNodes := g.gateNodes.insert gate g.nodes.size } where
  toWellFormed := h.toWellFormed.push gate hgate hfanins
  normal n node hn := by
    rcases getElem?_push_or hn with hn | ⟨-, rfl⟩
    · exact h.normal n node hn
    · exact hnormal
  known gate' n hgate' hn := by
    simp only [Std.HashMap.getElem?_insert, beq_iff_eq]
    rcases getElem?_push_or hn with hn | ⟨rfl, rfl⟩
    · have hknown := h.known gate' n hgate' hn
      rw [if_neg, hknown]
      rintro rfl
      simp [hnew] at hknown
    · rw [if_pos rfl]
  isGate_of_known gate' n hn := by
    simp only [Std.HashMap.getElem?_insert, beq_iff_eq] at hn
    split_ifs at hn with hsame
    · exact hsame ▸ hgate
    · exact h.isGate_of_known gate' n hn
  size_eq := by
    have hsize := h.size_eq
    simp only [Array.size_push, countGates_push, if_pos hgate]
    omega

theorem intern (h : g.Normal) (hgate : gate.IsGate) (hfanins : ∀ s ∈ gate.fanins, g.Has s)
    (hnormal : gate.Normal) : (g.intern gate).2.Normal := by
  unfold Xag.intern
  cases hknown : g.gateNodes[gate]? with
  | some n => exact h
  | none => exact h.push hgate hfanins hnormal hknown

theorem addAnd_of_atMost (h : g.Normal) (hx : g.Has x) (hy : g.Has y) (hxy : x.atMost y = true) :
    (g.addAnd x y).2.Normal := by
  unfold Xag.addAnd
  rw [if_pos hxy, if_pos hxy]
  dsimp only
  cases hfold : foldAnd? x y with
  | some s => exact h
  | none =>
    obtain ⟨hne, hzero⟩ := (foldAnd?_eq_none_iff x y).mp hfold
    have hle := Signal.node_le_of_atMost hxy
    exact h.intern trivial (has_fanins_and hx hy) ⟨by omega, by omega⟩

theorem addAnd (h : g.Normal) (hx : g.Has x) (hy : g.Has y) : (g.addAnd x y).2.Normal := by
  rcases Signal.atMost_total x y with hxy | hyx
  · exact h.addAnd_of_atMost hx hy hxy
  · rw [addAnd_swap]
    exact h.addAnd_of_atMost hy hx hyx

theorem addXor_of_le (h : g.Normal) (hx : g.Has x) (hy : g.Has y) (hxy : x.node ≤ y.node) :
    (g.addXor x y).2.Normal := by
  have hx' : g.Has x.regular := hx
  have hy' : g.Has y.regular := hy
  unfold Xag.addXor
  rw [if_pos hxy, if_pos hxy]
  dsimp only
  cases hfold : foldXor? x.regular y.regular with
  | some s => exact h
  | none =>
    obtain ⟨hne, hzero⟩ : x.node ≠ y.node ∧ x.node ≠ 0 :=
      (foldXor?_eq_none_iff x.regular y.regular).mp hfold
    have hplain : 0 < x.node ∧ x.node < y.node := by omega
    exact h.intern trivial (has_fanins_xor hx' hy') ⟨hplain.1, hplain.2, rfl, rfl⟩

theorem addXor (h : g.Normal) (hx : g.Has x) (hy : g.Has y) : (g.addXor x y).2.Normal := by
  rcases Nat.lt_or_ge y.node x.node with hlt | hle
  · rw [addXor_swap]
    exact h.addXor_of_le hy hx (Nat.le_of_lt hlt)
  · exact h.addXor_of_le hx hy hle

end Normal

theorem Reachable.normal (h : g.Reachable) : g.Normal := by
  induction h with
  | empty => exact .empty
  | addInput _ ih => exact ih.addInput
  | addOutput _ _ ih => exact ih.addOutput _
  | addAnd _ hx hy ih => exact ih.addAnd hx hy
  | addXor _ hx hy ih => exact ih.addXor hx hy

end Xag
end LogicResynthesis
