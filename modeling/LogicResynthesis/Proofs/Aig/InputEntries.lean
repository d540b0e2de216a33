import LogicResynthesis.Proofs.Aig.Sharing
import LogicResynthesis.Proofs.Aig.Simulation

/-!
# Entries for inputs

If the entries for inputs name nodes of their own, no entry overrides another: the
value bound to a node is that of the one entry for it. Simulation gives a signal
the value that it has when the leaves are read on a row.
-/

namespace LogicResynthesis
namespace Aig

section Bound

variable {α : Type} {complementIf : α → Bool → α} {inputs : List Port} {values : List α}
  {n : Nat} {v : α}

theorem exists_of_bound (h : bound complementIf inputs values n = some v) :
    ∃ (i : Nat) (p : Port) (x : α), inputs[i]? = some p ∧ values[i]? = some x ∧
      p.signal.node = n ∧ complementIf x p.signal.negated = v := by
  obtain ⟨⟨p, x⟩, hfind, rfl⟩ := Option.map_eq_some_iff.mp h
  have hmem := List.mem_reverse.mp (List.mem_of_find?_eq_some hfind)
  have hnode := List.find?_some hfind
  obtain ⟨i, hi⟩ := List.mem_iff_getElem?.mp hmem
  obtain ⟨hp, hx⟩ := List.getElem?_zip_eq_some.mp hi
  exact ⟨i, p, x, hp, hx, by simpa using hnode, rfl⟩

/-- Values of entries with different nodes do not override each other. -/
theorem bound_eq_some_iff (hnodup : (inputs.map (·.signal.node)).Nodup) :
    bound complementIf inputs values n = some v ↔
      ∃ (i : Nat) (p : Port) (x : α), inputs[i]? = some p ∧ values[i]? = some x ∧
        p.signal.node = n ∧ complementIf x p.signal.negated = v := by
  refine ⟨exists_of_bound, ?_⟩
  rintro ⟨i, p, x, hp, hx, rfl, rfl⟩
  cases hbound : bound complementIf inputs values p.signal.node with
  | none =>
    have hmem : (p, x) ∈ inputs.zip values :=
      List.mem_of_getElem? (List.getElem?_zip_eq_some.mpr ⟨hp, hx⟩)
    have hfind := List.find?_eq_none.mp (Option.map_eq_none_iff.mp hbound) (p, x)
      (List.mem_reverse.mpr hmem)
    simp at hfind
  | some w =>
    obtain ⟨j, q, y, hq, hy, hnode, rfl⟩ := exists_of_bound hbound
    have hj : j < (inputs.map (·.signal.node)).length := by
      simpa using (List.getElem?_eq_some_iff.mp hq).1
    have hsame : (inputs.map (·.signal.node))[j]? = (inputs.map (·.signal.node))[i]? := by
      rw [List.getElem?_map, List.getElem?_map, hq, hp, Option.map_some, Option.map_some, hnode]
    obtain rfl := (List.getElem?_inj hj hnodup).mp hsame
    obtain rfl := Option.some.inj (hp.symm.trans hq)
    obtain rfl := Option.some.inj (hx.symm.trans hy)
    rfl

end Bound

/-- The entries for inputs name input nodes, each its own. -/
structure Netlist.DistinctInputs (g : Netlist) : Prop where
  nodup : (g.inputs.toList.map (·.signal.node)).Nodup
  input : ∀ p ∈ g.inputs.toList, ∃ name, g.nodes[p.signal.node]? = some (.input name)

theorem mem_inputPorts {nodes : Array Node} {p : Port} :
    p ∈ inputPorts nodes ↔
      ∃ n name, nodes[n]? = some (.input name) ∧ p = ⟨name, .ofNode n⟩ := by
  simp only [inputPorts, List.mem_filterMap, Prod.exists, List.mem_zipIdx_iff_getElem?,
    Array.getElem?_toList]
  constructor
  · rintro ⟨node, n, hn, hport⟩
    cases node with
    | input name => exact ⟨n, name, hn, (Option.some.inj hport).symm⟩
    | literal b => cases hport
    | and a b => cases hport
  · rintro ⟨n, name, hn, rfl⟩
    exact ⟨.input name, n, hn, rfl⟩

theorem nodup_inputPorts (nodes : Array Node) :
    ((inputPorts nodes).map (·.signal.node)).Nodup := by
  have hnode : ∀ {node : Node} {n : Nat} {p : Port}, node.port? n = some p → p.signal.node = n := by
    intro node n p hport
    cases node <;> cases hport
    rfl
  rw [List.nodup_iff_pairwise_ne, List.pairwise_map, inputPorts, List.pairwise_filterMap,
    List.pairwise_iff_getElem]
  intro i j hi hj hij p hp q hq
  rw [hnode hp, hnode hq, List.getElem_zipIdx, List.getElem_zipIdx]
  simpa using Nat.ne_of_lt hij

theorem Netlist.distinctInputs_of_inputPorts {g : Netlist}
    (h : g.inputs.toList = inputPorts g.nodes) : g.DistinctInputs where
  nodup := h ▸ nodup_inputPorts g.nodes
  input p hp := by
    obtain ⟨n, name, hn, rfl⟩ := mem_inputPorts.mp (h ▸ hp)
    exact ⟨name, hn⟩

theorem simulate_value {nodes : Array Node} (hordered : Ordered nodes) (inputs : List Port)
    (leaves : List Table4) {s : Signal} (hs : s.node < nodes.size) :
    ∃ f, simulate nodes inputs leaves s = .ok f ∧
      ∀ x, f.row x = value nodes (fun n => (leafTable inputs leaves n).row x) s := by
  refine ⟨_, simulate_eq inputs leaves hordered hs, fun x => ?_⟩
  rw [Xag.row_readTable, row_tables]
  simp only [← row_leafTable]
  rfl

/-- An entry reads its leaf, whether it is complemented or not. -/
theorem Netlist.DistinctInputs.simulate_entry {g : Netlist} (h : g.DistinctInputs)
    (hordered : Ordered g.nodes) {leaves : List Table4} {i : Nat} {p : Port} {f : Table4}
    (hp : g.inputs.toList[i]? = some p) (hf : leaves[i]? = some f) :
    simulate g.nodes g.inputs.toList leaves p.signal = .ok f := by
  obtain ⟨name, hnode⟩ := h.input p (List.mem_of_getElem? hp)
  have hlt := (Array.getElem?_eq_some_iff.mp hnode).1
  have htable : leafTable g.inputs.toList leaves p.signal.node =
      f.complementIf p.signal.negated := by
    rw [leafTable, (bound_eq_some_iff h.nodup).mpr ⟨i, p, f, hp, hf, rfl, rfl⟩, Option.getD_some]
  obtain ⟨f', hsimulate, hrow⟩ := simulate_value hordered g.inputs.toList leaves hlt
  rw [hsimulate]
  congr 1
  ext x
  rw [hrow, value_eq_ofNode, value_input _ hnode, htable]
  simp

end Aig
end LogicResynthesis
