import LogicResynthesis.Proofs.Xag.Repetition
import LogicResynthesis.Proofs.Xag.Runs

/-!
# Laws of the gate constructors

The order of the operands does not matter, and neither do their complements for
an XOR, whose result takes them up. So all forms of a gate meet in one node. A
constructor appends at most that node, and once it has been called it only looks
the answer up.
-/

namespace LogicResynthesis

theorem Signal.complementIf_complementIf (s : Signal) (p q : Bool) :
    (s.complementIf p).complementIf q = s.complementIf (p ^^ q) := by
  simp [complementIf]

namespace Xag

variable {g : Xag} {x y : Signal}

theorem addXor_eq_regular (g : Xag) (x y : Signal) :
    g.addXor x y = ((g.addXor x.regular y.regular).1.complementIf (x.negated ^^ y.negated),
      (g.addXor x.regular y.regular).2) := by
  unfold addXor Signal.regular
  dsimp only
  cases foldXor? (if x.node ≤ y.node then ⟨x.node, false⟩ else ⟨y.node, false⟩)
      (if x.node ≤ y.node then ⟨y.node, false⟩ else ⟨x.node, false⟩) with
  | some s => simp
  | none => simp [Signal.complementIf]

theorem addXor_complementIf (g : Xag) (x y : Signal) (p q : Bool) :
    g.addXor (x.complementIf p) (y.complementIf q) =
      ((g.addXor x y).1.complementIf (p ^^ q), (g.addXor x y).2) := by
  have hmoved : ((x.negated ^^ p) ^^ (y.negated ^^ q)) = ((x.negated ^^ y.negated) ^^ (p ^^ q)) := by
    cases x.negated <;> cases y.negated <;> cases p <;> cases q <;> rfl
  rw [addXor_eq_regular, addXor_eq_regular g x y, Signal.complementIf_complementIf, ← hmoved]
  rfl

/-- A constructor answers with a signal of the given value, appends at most one node, and repeats
its answer in every graph that it leads to later, without a change. -/
structure Settles (g : Xag) (add : Xag → Signal × Xag) (value : (Nat → Bool) → Bool) : Prop where
  value : ∀ a, (add g).2.value a (add g).1 = value a
  nodes : (add g).2.nodes = g.nodes ∨ ∃ gate, (add g).2.nodes = g.nodes.push gate
  ports : (add g).2.inputs = g.inputs ∧ (add g).2.outputs = g.outputs
  again : ∀ g', (add g).2.LeadsTo g' → add g' = ((add g).1, g')

theorem WellFormed.settles_addAnd (h : g.WellFormed) (hx : g.Has x) (hy : g.Has y) :
    g.Settles (·.addAnd x y) fun a => g.value a x && g.value a y where
  value := (addAnd_answers h hx hy).value
  nodes := (g.nodes_addAnd x y).imp_right fun ⟨a, b, hnodes, _⟩ => ⟨.and a b, hnodes⟩
  ports := ⟨(growsTo_addAnd g x y).inputs, (growsTo_addAnd g x y).outputs⟩
  again _ hlater := g.addAnd_again hlater.knownIn

theorem WellFormed.settles_addXor (h : g.WellFormed) (hx : g.Has x) (hy : g.Has y) :
    g.Settles (·.addXor x y) fun a => g.value a x ^^ g.value a y where
  value := (addXor_answers h hx hy).value
  nodes := (g.nodes_addXor x y).imp_right fun ⟨a, b, hnodes, _⟩ => ⟨.xor a b, hnodes⟩
  ports := ⟨(growsTo_addXor g x y).inputs, (growsTo_addXor g x y).outputs⟩
  again _ hlater := g.addXor_again hlater.knownIn

/-- Both orders of the operands of an AND, and all orders and complements of those of an XOR, lead to
one graph, and to one signal up to the complements that an XOR takes up. -/
theorem Driven.constructors_canonical (h : g.Driven) (hx : g.Has x) (hy : g.Has y) :
    g.addAnd y x = g.addAnd x y ∧
    g.Settles (·.addAnd x y) (fun a => g.value a x && g.value a y) ∧
    (∀ p q, g.addXor (x.complementIf p) (y.complementIf q) =
        ((g.addXor x y).1.complementIf (p ^^ q), (g.addXor x y).2) ∧
      g.addXor (y.complementIf q) (x.complementIf p) =
        ((g.addXor x y).1.complementIf (p ^^ q), (g.addXor x y).2)) ∧
    g.Settles (·.addXor x y) fun a => g.value a x ^^ g.value a y := by
  have hwell := h.reachable.wellFormed
  refine ⟨g.addAnd_swap y x, hwell.settles_addAnd hx hy, fun p q => ?_,
    hwell.settles_addXor hx hy⟩
  refine ⟨g.addXor_complementIf x y p q, ?_⟩
  rw [addXor_swap]
  exact g.addXor_complementIf x y p q

def twoInputs : Xag := empty.addInput.2.addInput.2

/-- The XOR of two inputs, once with the operands the other way round and one of them complemented,
and once again after a further input. -/
theorem constructors_canonical_two_inputs :
    twoInputs.Driven ∧ twoInputs.Has ⟨1, false⟩ ∧ twoInputs.Has ⟨2, false⟩ ∧
      twoInputs.addXor ⟨2, true⟩ ⟨1, false⟩ =
        (⟨3, true⟩, (twoInputs.addXor ⟨1, false⟩ ⟨2, false⟩).2) ∧
      (twoInputs.addXor ⟨1, false⟩ ⟨2, false⟩).2.addInput.2.addXor ⟨1, false⟩ ⟨2, false⟩ =
        (⟨3, false⟩, (twoInputs.addXor ⟨1, false⟩ ⟨2, false⟩).2.addInput.2) := by
  have hdriven : twoInputs.Driven := .addInput (.addInput .empty)
  have hx : twoInputs.Has ⟨1, false⟩ := show 1 < 3 by decide
  have hy : twoInputs.Has ⟨2, false⟩ := show 2 < 3 by decide
  obtain ⟨-, -, hforms, hsettles⟩ := hdriven.constructors_canonical hx hy
  have hfirst : (twoInputs.addXor ⟨1, false⟩ ⟨2, false⟩).1 = ⟨3, false⟩ := by
    simp [twoInputs, addXor, foldXor?, intern, Signal.regular, addInput, empty]
  have hswapped := (hforms false true).2
  have hagain := hsettles.again _ (.single (.addInput _))
  rw [hfirst] at hswapped hagain
  exact ⟨hdriven, hx, hy, hswapped, hagain⟩

end Xag
end LogicResynthesis
