import LogicResynthesis.Proofs.Resynthesis.Query
import LogicResynthesis.Proofs.Xag.NormalForm

/-!
# XAGs in use

A graph is built by its constructors, by decoding index lists into it, and by
queries that copy circuits into it. Whatever the order of these, and even where
decoding fails half-way, it stays in normal form.
-/

namespace LogicResynthesis
namespace Xag

/-- A graph that constructors, decoding and queries lead to, on signals of its own. -/
inductive Driven : Xag → Prop
  | empty : Driven empty
  | addInput {g : Xag} (h : Driven g) : Driven g.addInput.2
  | addAnd {g : Xag} {x y : Signal} (h : Driven g) (hx : g.Has x) (hy : g.Has y) :
      Driven (g.addAnd x y).2
  | addXor {g : Xag} {x y : Signal} (h : Driven g) (hx : g.Has x) (hy : g.Has y) :
      Driven (g.addXor x y).2
  | addOutput {g : Xag} {x : Signal} (h : Driven g) (hx : g.Has x) : Driven (g.addOutput x)
  | decodeInto {g : Xag} (h : Driven g) (l : IndexList) : Driven (l.decodeInto g).2
  | query {g : Xag} {verbose : Bool} {words : List UInt32} {e : Engine} {function : Table}
      {leaves : List Signal} {accept : List Signal → Bool} {outcome : Engine.Outcome Xag}
      (h : Driven g) (he : Engine.ofWords verbose words = .ok e) (hleaves : ∀ s ∈ leaves, g.Has s)
      (hquery : e.query function leaves accept g = .ok outcome) : Driven outcome.target

theorem Driven.reachable {g : Xag} (h : g.Driven) : g.Reachable := by
  induction h with
  | empty => exact .empty
  | addInput _ ih => exact .addInput ih
  | addAnd _ hx hy ih => exact .addAnd ih hx hy
  | addXor _ hx hy ih => exact .addXor ih hx hy
  | addOutput _ hx ih => exact .addOutput ih hx
  | decodeInto _ l ih => exact (IndexList.reachable_decodeInto ih l).1
  | @query g _ _ _ function leaves _ outcome _ he hleaves hquery ih =>
    have hsound : outcome.Sound function leaves g :=
      (Engine.wellFormed_of_ofWords he).sound_of_query ih hleaves hquery
    exact hsound.reachable

/-- The constant is node 0 only, the entries for inputs and gates are exact, the operands of gates
are earlier nodes in normal form, and no gate is there twice. -/
theorem Driven.normal_form {g : Xag} (h : g.Driven) :
    (∀ n : Nat, g.nodes[n]? = some .constant ↔ n = 0) ∧
    (∀ i n : Nat, g.inputs[i]? = some n ↔ g.nodes[n]? = some (.input i)) ∧
    (∀ (n : Nat) (x y : Signal), g.nodes[n]? = some (.and x y) →
      0 < x.node ∧ x.node < y.node ∧ y.node < n) ∧
    (∀ (n : Nat) (x y : Signal), g.nodes[n]? = some (.xor x y) →
      0 < x.node ∧ x.node < y.node ∧ y.node < n ∧ x.negated = false ∧ y.negated = false) ∧
    (∀ (n m : Nat) (gate : Node), gate.IsGate → g.nodes[n]? = some gate →
      g.nodes[m]? = some gate → n = m) ∧
    (∀ (gate : Node) (n : Nat),
      g.gateNodes[gate]? = some n ↔ gate.IsGate ∧ g.nodes[n]? = some gate) ∧
    1 + g.inputs.size ≤ g.nodes.size ∧ g.numGates = countGates g.nodes := by
  have hnormal := h.reachable.normal
  refine ⟨fun n => ⟨hnormal.constant_only n, ?_⟩, hnormal.input_iff, ?_, ?_,
    fun n m gate hgate hn hm => hnormal.gate_unique hgate hn hm, hnormal.gateNodes_iff, ?_,
    hnormal.numGates_eq⟩
  · rintro rfl
    exact hnormal.zero
  · intro n x y hn
    obtain ⟨hpos, hlt⟩ := hnormal.normal n _ hn
    exact ⟨hpos, hlt, hnormal.ordered n _ hn y (by simp [Node.fanins])⟩
  · intro n x y hn
    obtain ⟨hpos, hlt, hplain⟩ := hnormal.normal n _ hn
    exact ⟨hpos, hlt, hnormal.ordered n _ hn y (by simp [Node.fanins]), hplain⟩
  · have hsize := hnormal.size_eq
    omega

/-- Two inputs and their conjunction; the operands of a second gate are undefined. -/
def halfDefined : IndexList := ⟨2, [(2, 4), (98, 99)], [], by decide, by decide, by decide⟩

/-- The gate that was built before decoding failed is in the table under its node. -/
theorem normal_form_half_defined :
    (halfDefined.decodeInto empty).1 = .error (.undefinedLiteral 3 98 4) ∧
      (halfDefined.decodeInto empty).2.Driven ∧
      (halfDefined.decodeInto empty).2.gateNodes[Node.and ⟨1, false⟩ ⟨2, false⟩]? = some 3 ∧
      (halfDefined.decodeInto empty).2.numGates = 1 := by
  have hdriven : (halfDefined.decodeInto empty).2.Driven := .decodeInto .empty halfDefined
  have hnodes : (halfDefined.decodeInto empty).2.nodes =
      #[.constant, .input 0, .input 1, .and ⟨1, false⟩ ⟨2, false⟩] := by
    have hgate : (halfDefined.decodeInto empty).2 =
        (empty.addInput.2.addInput.2.addAnd ⟨1, false⟩ ⟨2, false⟩).2 := rfl
    rw [hgate]
    simp [addAnd, foldAnd?, intern, Signal.atMost, Signal.ofNode, empty, addInput]
  obtain ⟨-, -, -, -, -, hknown, -, hcount⟩ := hdriven.normal_form
  refine ⟨rfl, hdriven, (hknown _ 3).mpr ⟨trivial, by rw [hnodes]; rfl⟩, ?_⟩
  rw [hcount, hnodes]
  rfl

end Xag
end LogicResynthesis
