import Mathlib.Data.Set.Card
import LogicResynthesis.Proofs.Aig.Depth
import LogicResynthesis.Proofs.Aig.Originals

/-!
# Gates below a node

The gates below a gate are itself and those below its operands. They do not
change when the list grows. The live gates of a netlist are those below its
outputs, each listed once.
-/

namespace LogicResynthesis
namespace Aig

variable {nodes nodes' : Array Node} {n m k d : Nat} {x y : Signal}

/-- Node `k` is a gate, and fanins lead to it. -/
structure GateBelow (nodes : Array Node) (n k : Nat) : Prop where
  leads : Dag.Leads (faninsOf nodes) n k
  gate : ∃ x y, nodes[k]? = some (.and x y)

theorem GateBelow.of_operand (hn : IsAndOf nodes n x y) (h : GateBelow nodes x.node k) :
    GateBelow nodes n k := by
  have hfanin : x.node ∈ faninsOf nodes n := by
    rcases hn with hn | hn
    · exact mem_faninsOf.mpr ⟨x, y, hn, .inl rfl⟩
    · exact mem_faninsOf.mpr ⟨y, x, hn, .inr rfl⟩
  exact ⟨.head hfanin h.leads, h.gate⟩

theorem GateBelow.self (hn : IsAndOf nodes n x y) : GateBelow nodes n n :=
  ⟨.refl, hn.elim (fun h => ⟨x, y, h⟩) fun h => ⟨y, x, h⟩⟩

theorem GateBelow.cases (hn : IsAndOf nodes n x y) (h : GateBelow nodes n k) :
    k = n ∨ GateBelow nodes x.node k ∨ GateBelow nodes y.node k := by
  rcases Relation.ReflTransGen.cases_head h.leads with rfl | ⟨m, hm, hleads⟩
  · exact .inl rfl
  · obtain ⟨a, b, hgate, hm⟩ := mem_faninsOf.mp hm
    have hnode : m = x.node ∨ m = y.node := by
      rcases hn with hn | hn
      · obtain ⟨rfl, rfl⟩ := Node.and.inj (Option.some.inj (hn.symm.trans hgate))
        exact hm
      · obtain ⟨rfl, rfl⟩ := Node.and.inj (Option.some.inj (hn.symm.trans hgate))
        exact hm.symm
    rcases hnode with rfl | rfl
    · exact .inr (.inl ⟨hleads, h.gate⟩)
    · exact .inr (.inr ⟨hleads, h.gate⟩)

theorem GateBelow.exists_and (h : GateBelow nodes n k) : ∃ x y, nodes[n]? = some (.and x y) := by
  rcases Relation.ReflTransGen.cases_head h.leads with rfl | ⟨m, hm, -⟩
  · exact h.gate
  · obtain ⟨x, y, hn, -⟩ := mem_faninsOf.mp hm
    exact ⟨x, y, hn⟩

theorem GateBelow.lt_size (h : GateBelow nodes n k) : k < nodes.size := by
  obtain ⟨x, y, hk⟩ := h.gate
  exact (Array.getElem?_eq_some_iff.mp hk).1

section Grown

theorem faninsOf_eq_of_grown (hgrown : nodes.toList <+: nodes'.toList) (hn : n < nodes.size) :
    faninsOf nodes' n = faninsOf nodes n := by
  rw [faninsOf, listAt, getElem?_eq_of_grown hgrown hn]
  rfl

theorem gateBelow_iff_of_grown (hordered : Ordered nodes)
    (hgrown : nodes.toList <+: nodes'.toList) (hn : n < nodes.size) :
    GateBelow nodes' n k ↔ GateBelow nodes n k := by
  have hlt := hordered.ranked.below_lt
  have hleads : Dag.Leads (faninsOf nodes') n k ↔ Dag.Leads (faninsOf nodes) n k :=
    Dag.leads_iff_of_agree hlt (fun m hm => faninsOf_eq_of_grown hgrown hm) hn
  have hnode : Dag.Leads (faninsOf nodes) n k → nodes'[k]? = nodes[k]? :=
    fun h => getElem?_eq_of_grown hgrown (Dag.lt_of_leads hlt hn h)
  constructor
  · rintro ⟨h, x, y, hk⟩
    have hold := hleads.mp h
    exact ⟨hold, x, y, (hnode hold).symm.trans hk⟩
  · rintro ⟨h, x, y, hk⟩
    exact ⟨hleads.mpr h, x, y, (hnode h).trans hk⟩

theorem hasDepth_iff_of_grown (hordered : Ordered nodes)
    (hgrown : nodes.toList <+: nodes'.toList) (hn : n < nodes.size) :
    HasDepth nodes' n d ↔ HasDepth nodes n d := by
  constructor
  · intro h
    obtain ⟨p, hp⟩ := hordered.ranked.exists_hasDepth hn
    rwa [h.unique (hp.of_grown hgrown)]
  · exact fun h => h.of_grown hgrown

end Grown

theorem HasDepth.of_isAndOf (hn : IsAndOf nodes n x y) (h : HasDepth nodes n d) :
    ∃ p q, HasDepth nodes x.node p ∧ HasDepth nodes y.node q ∧ d = max p q + 1 := by
  rcases hn with hn | hn
  · exact (HasDepth.and_iff hn).mp h
  · obtain ⟨p, q, hp, hq, hd⟩ := (HasDepth.and_iff hn).mp h
    exact ⟨q, p, hq, hp, by rw [hd, Nat.max_comm]⟩

def Netlist.gatesBelowOutputs (g : Netlist) : Set Nat :=
  {k | ∃ p ∈ g.outputs.toList, GateBelow g.nodes p.signal.node k}

/-- The live gates are those below the outputs, each listed once. -/
theorem Netlist.Closed.liveGates_ok {g : Netlist} (h : g.Closed) :
    ∃ live, g.liveGates = .ok live ∧ live.Nodup ∧ ∀ k, k ∈ live ↔ k ∈ g.gatesBelowOutputs := by
  have hroots : ∀ n ∈ g.outputs.toList.map (·.signal.node), n < g.nodes.size := by
    simpa using h.outputs_lt
  obtain ⟨order, horder, htop, hmem⟩ :=
    h.ordered.ranked.postOrder_leads (fun _ => false) hroots
  refine ⟨order.filter g.isGate, ?_, htop.nodup.filter _, ?_⟩
  · rw [liveGates, liveNodes, postOrder, horder]
    rfl
  · intro k
    have hnone : ∀ n, (fun _ : Nat => false) n = true → ∀ m ∈ faninsOf g.nodes n,
        (fun _ : Nat => false) m = true := by simp
    have haround : ∀ n, Dag.LeadsAround (faninsOf g.nodes) (fun _ => false) n k ↔
        Dag.Leads (faninsOf g.nodes) n k :=
      fun n => by simpa using Dag.leadsAround_iff hnone (n := n) (m := k)
    simp only [List.mem_filter, hmem, haround, true_and, List.mem_map, Netlist.isGate, isAnd_at_iff]
    constructor
    · rintro ⟨⟨_, ⟨p, hp, rfl⟩, hleads⟩, hgate⟩
      exact ⟨p, hp, hleads, hgate⟩
    · rintro ⟨p, hp, hleads, hgate⟩
      exact ⟨⟨_, ⟨p, hp, rfl⟩, hleads⟩, hgate⟩

theorem Netlist.Closed.finite_gatesBelowOutputs {g : Netlist} (h : g.Closed) :
    g.gatesBelowOutputs.Finite := by
  obtain ⟨live, -, -, hmem⟩ := h.liveGates_ok
  exact live.toFinset.finite_toSet.subset fun k hk =>
    Finset.mem_coe.mpr (List.mem_toFinset.mpr ((hmem k).mpr hk))

theorem Netlist.Closed.numLiveGates_eq {g : Netlist} (h : g.Closed) :
    g.numLiveGates = .ok g.gatesBelowOutputs.ncard := by
  obtain ⟨live, hlive, hnodup, hmem⟩ := h.liveGates_ok
  have hset : g.gatesBelowOutputs = live.toFinset := by
    ext k
    rw [Finset.mem_coe, List.mem_toFinset, hmem]
  rw [numLiveGates, hlive, hset, Set.ncard_coe_finset, List.toFinset_card_of_nodup hnodup]
  rfl

end Aig
end LogicResynthesis
