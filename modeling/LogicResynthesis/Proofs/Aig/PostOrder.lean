import LogicResynthesis.Proofs.Aig.Depth
import LogicResynthesis.Proofs.Dag.Recursion

/-!
# The post-order of a node list

On a node list without cycles the walk with a stack ends, and emits what the
recursive search emits, the first operand of a gate before the second. The list
may refer forward, and nodes in the middle of a cone may be done beforehand.
-/

namespace LogicResynthesis
namespace Aig

/-- The walk ends with the one result of the recursive search: the nodes that the roots lead to
around done nodes, each once and after its fanins. -/
theorem postOrder_recursive {nodes : Array Node} (hacyclic : Acyclic nodes) (done : Nat → Bool)
    {roots : List Nat} (hroots : ∀ n ∈ roots, n < nodes.size) :
    ∃ order, postOrder nodes done roots = .ok order ∧
      (∀ fuel, roots.length + 3 * nodes.size ≤ fuel →
        Dag.Walk.run (faninNodes nodes) done fuel (Dag.Walk.start roots) = .ok order) ∧
      (∀ result, Dag.DepthFirst (faninsOf nodes) done roots [] result ↔ result = order) ∧
      order.Nodup ∧
      (∀ m, m ∈ order ↔
        ∃ n ∈ roots, done n = false ∧ Dag.LeadsAround (faninsOf nodes) done n m) ∧
      ∀ before n after, order = before ++ n :: after →
        ∀ m ∈ faninsOf nodes n, done m = true ∨ m ∈ before := by
  obtain ⟨rank, G⟩ := hacyclic.exists_ranked
  obtain ⟨order, hsearch, hrun⟩ := G.run_depthFirst done hroots
  obtain ⟨order', hpost, htopological, hmem⟩ := G.postOrder_leads done hroots
  have hend : postOrder nodes done roots = .ok order := hrun _ (Nat.le_refl _)
  obtain rfl : order' = order := Except.ok.inj (hpost.symm.trans hend)
  refine ⟨order', hend, hrun, fun result => ⟨hsearch.unique, ?_⟩, htopological.nodup, hmem,
    fun before n after => htopological.mem_before⟩
  rintro rfl
  exact hsearch

/-- Gates 0 and 2 refer forward, and input 1 is shared. -/
def forwardGates : Array Node :=
  #[.and ⟨3, false⟩ ⟨2, true⟩, .input "a", .and ⟨1, true⟩ ⟨4, false⟩, .and ⟨1, false⟩ ⟨1, false⟩,
    .input "b"]

theorem acyclic_forwardGates : Acyclic forwardGates where
  operands_lt n x y h := by
    rcases n with _ | _ | _ | _ | _ | n <;> simp [forwardGates] at h <;>
      obtain ⟨rfl, rfl⟩ := h <;> decide
  acyclic := by
    have hrank : ∀ n, ∀ m ∈ faninsOf forwardGates n,
        (if m = 0 then 2 else if m = 2 ∨ m = 3 then 1 else 0) <
          if n = 0 then 2 else if n = 2 ∨ n = 3 then 1 else 0 := by
      intro n m hm
      rcases n with _ | _ | _ | _ | _ | n <;>
        simp [faninsOf, listAt, forwardGates, Node.fanins] at hm <;>
        rcases hm with rfl | rfl <;> decide
    exact Dag.acyclic_of_rank hrank

/-- Below the cached gate 2 nothing is emitted, and the repeated root is emitted once. -/
theorem postOrder_recursive_forward :
    Acyclic forwardGates ∧ (∀ n ∈ [0, 3, 0], n < forwardGates.size) ∧
      postOrder forwardGates (· == 2) [0, 3, 0] = .ok [1, 3, 0] := by
  have hroots : ∀ n ∈ [0, 3, 0], n < forwardGates.size := by decide
  obtain ⟨order, hpost, -, hsearch, -⟩ :=
    postOrder_recursive acyclic_forwardGates (· == 2) hroots
  have hthird : Dag.DepthFirst (faninsOf forwardGates) (· == 2) [3] [] [1, 3] :=
    .visit rfl (by decide) (.visit rfl (by decide) (.nil _) (.skip (.inr (by decide)) (.nil _)))
      (.nil _)
  have hfirst : Dag.DepthFirst (faninsOf forwardGates) (· == 2) [0, 3, 0] [] [1, 3, 0] :=
    .visit rfl (by decide) (hthird.cons (.skip (.inl rfl) (.nil _)))
      (.skip (.inr (by decide)) (.skip (.inr (by decide)) (.nil _)))
  obtain rfl := (hsearch _).mp hfirst
  exact ⟨acyclic_forwardGates, hroots, hpost⟩

end Aig
end LogicResynthesis
