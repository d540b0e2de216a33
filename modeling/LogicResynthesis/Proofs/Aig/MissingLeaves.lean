import LogicResynthesis.Proofs.Aig.InputEntries

/-!
# Inputs without a leaf

The node of an input without a leaf simulates as constant `false`. A leaf is
complemented on its way to the node if the entry is, and the missing one is not:
a complemented entry without a leaf reads as constant `true`, as if the leaf had
been that. The list padded with `false` leaves is simulated alike just if no
missing entry is complemented.
-/

namespace LogicResynthesis
namespace Aig

namespace Netlist

variable (g : Netlist)

/-- The leaves with one more for each missing input, which makes its node constant `false`. -/
def completed (leaves : List Table4) : List Table4 :=
  leaves ++ (g.inputs.toList.drop leaves.length).map fun p =>
    Table4.zero.complementIf p.signal.negated

/-- The leaves with constant `false` for each missing input. -/
def padded (leaves : List Table4) : List Table4 :=
  leaves ++ List.replicate (g.inputs.size - leaves.length) Table4.zero

variable {g} {leaves : List Table4}

theorem length_completed (hleaves : leaves.length ≤ g.inputs.size) :
    (g.completed leaves).length = g.inputs.size := by
  simp only [completed, List.length_append, List.length_map, List.length_drop, Array.length_toList]
  omega

theorem completed_eq_padded
    (hplain : ∀ p ∈ g.inputs.toList.drop leaves.length, p.signal.negated = false) :
    g.completed leaves = g.padded leaves := by
  rw [completed, padded, List.append_cancel_left_eq, List.eq_replicate_iff]
  refine ⟨by simp, ?_⟩
  intro f hf
  obtain ⟨p, hp, rfl⟩ := List.mem_map.mp hf
  rw [hplain p hp]
  rfl

theorem getElem?_completed {i : Nat} {p : Port} (hp : g.inputs.toList[i]? = some p) (f : Table4) :
    (g.completed leaves)[i]? = some f ↔ leaves[i]? = some f ∨
      leaves.length ≤ i ∧ f = Table4.zero.complementIf p.signal.negated := by
  rcases Nat.lt_or_ge i leaves.length with hi | hi
  · rw [completed, List.getElem?_append_left hi]
    simp [Nat.not_le.mpr hi]
  · rw [completed, List.getElem?_append_right hi, List.getElem?_map, List.getElem?_drop,
      Nat.add_sub_cancel' hi, hp, List.getElem?_eq_none hi]
    simp [hi, eq_comm]

theorem leafTable_completed (hinputs : g.DistinctInputs) (n : Nat) :
    leafTable g.inputs.toList (g.completed leaves) n = leafTable g.inputs.toList leaves n := by
  unfold leafTable
  cases hgiven : bound Table4.complementIf g.inputs.toList leaves n with
  | some f =>
    obtain ⟨i, p, x, hp, hx, hnode, hvalue⟩ := exists_of_bound hgiven
    have hleaf := (getElem?_completed hp x).mpr (.inl hx)
    rw [(bound_eq_some_iff hinputs.nodup).mpr ⟨i, p, x, hp, hleaf, hnode, hvalue⟩]
  | none =>
    cases hall : bound Table4.complementIf g.inputs.toList (g.completed leaves) n with
    | none => rfl
    | some f =>
      obtain ⟨i, p, x, hp, hx, hnode, rfl⟩ := exists_of_bound hall
      rcases (getElem?_completed hp x).mp hx with hx | ⟨-, rfl⟩
      · have hbound : bound Table4.complementIf g.inputs.toList leaves n = some _ :=
          (bound_eq_some_iff hinputs.nodup).mpr ⟨i, p, x, hp, hx, hnode, rfl⟩
        cases hgiven.symm.trans hbound
      · ext row
        simp

theorem simulate_congr {leaves' : List Table4} (nodes : Array Node) (inputs : List Port)
    (h : ∀ n, leafTable inputs leaves' n = leafTable inputs leaves n) (s : Signal) :
    simulate nodes inputs leaves' s = simulate nodes inputs leaves s := by
  have htable : Simulation.nodeTable? (bound Table4.complementIf inputs leaves') =
      Simulation.nodeTable? (bound Table4.complementIf inputs leaves) := by
    funext tables node
    cases node with
    | literal b => rfl
    | input name => exact congrArg Except.ok (h tables.size)
    | and a b => rfl
  unfold simulate
  rw [htable]

theorem simulate_completed (hinputs : g.DistinctInputs) (s : Signal) :
    simulate g.nodes g.inputs.toList (g.completed leaves) s =
      simulate g.nodes g.inputs.toList leaves s :=
  simulate_congr _ _ (leafTable_completed hinputs) s

/-- A missing complemented entry tells the two ways to complete the leaves apart. -/
theorem simulate_padded_iff (hordered : Ordered g.nodes) (hinputs : g.DistinctInputs) :
    (∀ s, simulate g.nodes g.inputs.toList leaves s =
        simulate g.nodes g.inputs.toList (g.padded leaves) s) ↔
      ∀ p ∈ g.inputs.toList.drop leaves.length, p.signal.negated = false := by
  constructor
  · intro h p hp
    obtain ⟨k, hk⟩ := List.mem_iff_getElem?.mp hp
    rw [List.getElem?_drop] at hk
    have hsize : leaves.length + k < g.inputs.size := by
      simpa using (List.getElem?_eq_some_iff.mp hk).1
    have hcompleted : (g.completed leaves)[leaves.length + k]? = some _ :=
      (getElem?_completed hk _).mpr (.inr ⟨Nat.le_add_right _ _, rfl⟩)
    have hpadded : (g.padded leaves)[leaves.length + k]? = some Table4.zero := by
      rw [padded, List.getElem?_append_right (Nat.le_add_right _ _), List.getElem?_replicate,
        if_pos (by omega)]
    have hsame := h p.signal
    rw [← simulate_completed hinputs, hinputs.simulate_entry hordered hk hcompleted,
      hinputs.simulate_entry hordered hk hpadded] at hsame
    have hrow := congrArg (·.row 0) (Except.ok.inj hsame)
    simpa using hrow
  · intro hplain s
    rw [← completed_eq_padded hplain, simulate_completed hinputs]

/-- Simulation and evaluation agree on a netlist whose missing inputs are taken to be `false` where
their entry is plain, and `true` where it is complemented. With `false` for all of them the
simulation is the same just if no missing entry is complemented. -/
theorem missing_leaves (hordered : Ordered g.nodes) (hinputs : g.DistinctInputs)
    (hleaves : leaves.length ≤ g.inputs.size) :
    (∀ s, simulate g.nodes g.inputs.toList leaves s =
        simulate g.nodes g.inputs.toList (g.completed leaves) s) ∧
      (∀ s : Signal, s.node < g.nodes.size →
        ∃ f, simulate g.nodes g.inputs.toList leaves s = .ok f ∧
          ∀ x e, g.eval ((g.completed leaves).map (·.row x)) = .ok e → f.row x = e.value s) ∧
      (∀ x, (∃ e, g.eval ((g.completed leaves).map (·.row x)) = .ok e) ↔
        ∀ p ∈ g.outputs.toList, p.signal.node < g.nodes.size) ∧
      ((∀ s, simulate g.nodes g.inputs.toList leaves s =
          simulate g.nodes g.inputs.toList (g.padded leaves) s) ↔
        ∀ p ∈ g.inputs.toList.drop leaves.length, p.signal.negated = false) ∧
      ((∀ p ∈ g.inputs.toList.drop leaves.length, p.signal.negated = false) →
        g.completed leaves = g.padded leaves) := by
  have hlength (x : Assignment) : ((g.completed leaves).map (·.row x)).length = g.inputs.size := by
    rw [List.length_map, length_completed hleaves]
  refine ⟨fun s => (simulate_completed hinputs s).symm, fun s hs => ?_, fun x => ?_,
    simulate_padded_iff hordered hinputs, completed_eq_padded⟩
  · obtain ⟨f, hf, hrow⟩ := simulate_value hordered g.inputs.toList (g.completed leaves) hs
    refine ⟨f, (simulate_completed hinputs s).symm.trans hf, fun x e he => ?_⟩
    obtain ⟨-, rfl⟩ := (eval_ok_iff hordered (hlength x) e).mp he
    rw [hrow]
    simp only [row_leafTable]
    rfl
  · simp only [eval_ok_iff hordered (hlength x), exists_and_left, exists_eq, and_true]

/-- An AND of a plain and a complemented input. -/
def halfComplemented : Netlist where
  name := "half"
  inputs := #[⟨"a", ⟨1, false⟩⟩, ⟨"b", ⟨2, true⟩⟩]
  outputs := #[⟨"o", ⟨3, false⟩⟩]
  nodes := #[.literal false, .input "a", .input "b", .and ⟨1, false⟩ ⟨2, true⟩]

theorem ordered_halfComplemented : Ordered halfComplemented.nodes := by
  intro n node hn s hs
  rcases n with _ | _ | _ | _ | n <;> simp [halfComplemented] at hn <;> subst hn <;>
    simp [Node.fanins] at hs
  rcases hs with rfl | rfl <;> decide

theorem distinctInputs_halfComplemented : halfComplemented.DistinctInputs where
  nodup := by decide
  input := by simp [halfComplemented]

theorem simulate_halfComplemented :
    simulate halfComplemented.nodes halfComplemented.inputs.toList [Table4.projection 0]
      ⟨3, false⟩ = .ok (Table4.projection 0) := by
  decide +kernel

/-- The missing second input reads as `true`, and the AND is the first leaf. -/
theorem missing_leaves_complemented :
    Ordered halfComplemented.nodes ∧ halfComplemented.DistinctInputs ∧
      [Table4.projection 0].length ≤ halfComplemented.inputs.size ∧
      simulate halfComplemented.nodes halfComplemented.inputs.toList [Table4.projection 0]
          ⟨3, false⟩ = .ok (Table4.projection 0) ∧
      ∃ e, halfComplemented.eval [true, true] = .ok e ∧
        e.value ⟨3, false⟩ = (Table4.projection 0).row 1 := by
  have hleaves : [Table4.projection 0].length ≤ halfComplemented.inputs.size := by decide
  obtain ⟨-, hsimulate, -⟩ :=
    missing_leaves ordered_halfComplemented distinctInputs_halfComplemented hleaves
  obtain ⟨f, hf, hrow⟩ := hsimulate ⟨3, false⟩ (by decide)
  obtain rfl : f = Table4.projection 0 :=
    Except.ok.inj (hf.symm.trans simulate_halfComplemented)
  have hvalues : (halfComplemented.completed [Table4.projection 0]).map (·.row 1) =
      [true, true] := by decide +kernel
  have heval : halfComplemented.eval [true, true] = .ok ⟨[true], #[false, true, false, true]⟩ := rfl
  exact ⟨ordered_halfComplemented, distinctInputs_halfComplemented, hleaves, hf, _, heval,
    (hrow 1 _ (hvalues ▸ heval)).symm⟩

/-- With a leaf `false` for the second input instead, the AND is `false`. -/
theorem padded_ne_missing :
    Ordered halfComplemented.nodes ∧ halfComplemented.DistinctInputs ∧
      simulate halfComplemented.nodes halfComplemented.inputs.toList [Table4.projection 0]
          ⟨3, false⟩ = .ok (Table4.projection 0) ∧
      simulate halfComplemented.nodes halfComplemented.inputs.toList
          (halfComplemented.padded [Table4.projection 0]) ⟨3, false⟩ = .ok Table4.zero :=
  ⟨ordered_halfComplemented, distinctInputs_halfComplemented, simulate_halfComplemented,
    by decide +kernel⟩

end Netlist
end Aig
end LogicResynthesis
