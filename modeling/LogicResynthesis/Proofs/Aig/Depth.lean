import Mathlib.Order.Bounds.Basic
import LogicResynthesis.Aig.StructuralHash
import LogicResynthesis.Proofs.Aig.Semantics
import LogicResynthesis.Proofs.Dag.Acyclic

/-!
# Logic depth

A node list without cycles may refer forward. The depth of a node is the length
of the longest chain of gates that starts at it.
-/

namespace LogicResynthesis
namespace Aig

/-- The fanin nodes of a node; none if the node does not exist. -/
def faninsOf (nodes : Array Node) : Nat → List Nat :=
  listAt (fun node => node.fanins.map (·.node)) nodes

/-- Operands are nodes of the list, and no node is below itself. -/
structure Acyclic (nodes : Array Node) : Prop where
  operands_lt : ∀ (n : Nat) (a b : Signal), nodes[n]? = some (.and a b) →
    a.node < nodes.size ∧ b.node < nodes.size
  acyclic : Dag.Acyclic (faninsOf nodes)

/-- Fanins have a lower rank than the node. -/
abbrev RankedBy (nodes : Array Node) (rank : Nat → Nat) : Prop :=
  Dag.Ranked nodes.size (faninNodes nodes) (faninsOf nodes) rank

variable {nodes : Array Node} {rank : Nat → Nat} {n : Nat}

theorem faninsOf_eq {node : Node} (h : nodes[n]? = some node) :
    faninsOf nodes n = node.fanins.map (·.node) := listAt_eq h

theorem node?_eq {node : Node} (h : nodes[n]? = some node) : node? nodes n = .ok node := by
  simp [node?, h]

theorem faninNodes_eq {node : Node} (h : nodes[n]? = some node) :
    faninNodes nodes n = .ok (node.fanins.map (·.node)) := by
  rw [faninNodes, node?_eq h]
  rfl

theorem Ordered.ranked (h : Ordered nodes) : RankedBy nodes id := by
  apply InOrder.ranked h
  · exact fun n node hnode => faninNodes_eq hnode
  · intro node
    cases node <;> simp [Node.fanins]
  · intro node m hm
    exact List.mem_map.mp hm

theorem isAnd_at_iff :
    (nodes[n]?.map Node.isAnd).getD false = true ↔ ∃ a b, nodes[n]? = some (.and a b) := by
  cases hn : nodes[n]? with
  | none => simp
  | some node => cases node <;> simp [Node.isAnd]

theorem mem_faninsOf {m : Nat} :
    m ∈ faninsOf nodes n ↔
      ∃ a b, nodes[n]? = some (.and a b) ∧ (m = a.node ∨ m = b.node) := by
  cases hn : nodes[n]? with
  | none => simp [faninsOf, listAt, hn]
  | some node =>
    rw [faninsOf_eq hn]
    cases node <;> simp [Node.fanins]

theorem Acyclic.faninsOf_lt (h : Acyclic nodes) : ∀ n < nodes.size, ∀ m ∈ faninsOf nodes n,
    m < nodes.size := by
  intro n _ m hm
  obtain ⟨a, b, hn, rfl | rfl⟩ := mem_faninsOf.mp hm
  · exact (h.operands_lt n a b hn).1
  · exact (h.operands_lt n a b hn).2

theorem Acyclic.exists_ranked (h : Acyclic nodes) : ∃ rank, RankedBy nodes rank := by
  obtain ⟨rank, hrank⟩ := h.acyclic.exists_rank h.faninsOf_lt
  refine ⟨rank, ?_, ?_, h.faninsOf_lt, hrank⟩
  · intro n hn
    have hnode : nodes[n]? = some nodes[n] := Array.getElem?_eq_getElem hn
    rw [faninsOf_eq hnode, faninNodes_eq hnode]
  · intro n hn
    rw [faninsOf_eq (Array.getElem?_eq_getElem hn), List.length_map]
    cases nodes[n] <;> simp [Node.fanins]

theorem rank_lt_of_and (G : RankedBy nodes rank) {a b : Signal}
    (hn : nodes[n]? = some (.and a b)) :
    (a.node < nodes.size ∧ rank a.node < rank n) ∧ b.node < nodes.size ∧ rank b.node < rank n := by
  have hlt := (Array.getElem?_eq_some_iff.mp hn).1
  have ha := mem_faninsOf.mpr ⟨a, b, hn, .inl rfl⟩
  have hb := mem_faninsOf.mpr ⟨a, b, hn, .inr rfl⟩
  exact ⟨⟨G.below_lt n hlt _ ha, G.rank_lt n hlt _ ha⟩, G.below_lt n hlt _ hb, G.rank_lt n hlt _ hb⟩

/-- A node has depth 0 if it is no gate; a gate is one deeper than its deeper operand. -/
inductive HasDepth (nodes : Array Node) : Nat → Nat → Prop
  | literal {n : Nat} {b : Bool} (hn : nodes[n]? = some (.literal b)) : HasDepth nodes n 0
  | input {n : Nat} {name : String} (hn : nodes[n]? = some (.input name)) : HasDepth nodes n 0
  | and {n p q : Nat} {a b : Signal} (hn : nodes[n]? = some (.and a b))
      (ha : HasDepth nodes a.node p) (hb : HasDepth nodes b.node q) : HasDepth nodes n (max p q + 1)

/-- So many gates follow one another from a node down. -/
inductive Chain (nodes : Array Node) : Nat → Nat → Prop
  | zero (n : Nat) : Chain nodes n 0
  | left {n k : Nat} {a b : Signal} (hn : nodes[n]? = some (.and a b))
      (h : Chain nodes a.node k) : Chain nodes n (k + 1)
  | right {n k : Nat} {a b : Signal} (hn : nodes[n]? = some (.and a b))
      (h : Chain nodes b.node k) : Chain nodes n (k + 1)

theorem RankedBy.exists_hasDepth (G : RankedBy nodes rank) (hn : n < nodes.size) :
    ∃ d, HasDepth nodes n d := by
  induction hrank : rank n using Nat.strongRecOn generalizing n with
  | ind r ih =>
    subst hrank
    have hnode : nodes[n]? = some nodes[n] := Array.getElem?_eq_getElem hn
    cases hand : nodes[n] with
    | literal b => exact ⟨0, .literal (hnode.trans (congrArg some hand))⟩
    | input name => exact ⟨0, .input (hnode.trans (congrArg some hand))⟩
    | and a b =>
      rw [hand] at hnode
      obtain ⟨⟨ha, har⟩, hb, hbr⟩ := rank_lt_of_and G hnode
      obtain ⟨p, hp⟩ := ih _ har ha rfl
      obtain ⟨q, hq⟩ := ih _ hbr hb rfl
      exact ⟨_, .and hnode hp hq⟩

namespace HasDepth

variable {p q d : Nat}

theorem and_iff {a b : Signal} (hn : nodes[n]? = some (.and a b)) :
    HasDepth nodes n d ↔
      ∃ p q, HasDepth nodes a.node p ∧ HasDepth nodes b.node q ∧ d = max p q + 1 := by
  constructor
  · intro h
    cases h with
    | literal hn' => simp [hn] at hn'
    | input hn' => simp [hn] at hn'
    | and hn' ha hb =>
      obtain ⟨rfl, rfl⟩ := Node.and.inj (Option.some.inj (hn.symm.trans hn'))
      exact ⟨_, _, ha, hb, rfl⟩
  · rintro ⟨p, q, ha, hb, rfl⟩
    exact .and hn ha hb

theorem unique (h : HasDepth nodes n p) (h' : HasDepth nodes n q) : p = q := by
  induction h generalizing q with
  | literal hn =>
    cases h' with
    | literal _ => rfl
    | input _ => rfl
    | and hn' => simp [hn] at hn'
  | input hn =>
    cases h' with
    | literal _ => rfl
    | input _ => rfl
    | and hn' => simp [hn] at hn'
  | and hn _ _ iha ihb =>
    obtain ⟨p', q', ha', hb', rfl⟩ := (and_iff hn).mp h'
    rw [iha ha', ihb hb']

theorem exists_chain (h : HasDepth nodes n d) : Chain nodes n d := by
  induction h with
  | literal _ => exact .zero _
  | input _ => exact .zero _
  | @and n p q a b hn _ _ iha ihb =>
    rcases Nat.le_total p q with hpq | hpq
    · rw [Nat.max_eq_right hpq]
      exact .right hn ihb
    · rw [Nat.max_eq_left hpq]
      exact .left hn iha

theorem le_of_chain (h : HasDepth nodes n d) {k : Nat} (hk : Chain nodes n k) : k ≤ d := by
  induction hk generalizing d with
  | zero _ => exact Nat.zero_le d
  | left hn _ ih =>
    obtain ⟨p, q, ha, -, rfl⟩ := (and_iff hn).mp h
    exact Nat.succ_le_succ (Nat.le_trans (ih ha) (Nat.le_max_left p q))
  | right hn _ ih =>
    obtain ⟨p, q, -, hb, rfl⟩ := (and_iff hn).mp h
    exact Nat.succ_le_succ (Nat.le_trans (ih hb) (Nat.le_max_right p q))

/-- The depth is the length of the longest chain of gates. -/
theorem isGreatest (h : HasDepth nodes n d) : IsGreatest {k | Chain nodes n k} d :=
  ⟨h.exists_chain, fun _ hk => h.le_of_chain hk⟩

theorem of_grown {nodes' : Array Node} (hgrown : nodes.toList <+: nodes'.toList)
    (h : HasDepth nodes n d) : HasDepth nodes' n d := by
  induction h with
  | literal hn => exact .literal (getElem?_of_grown hgrown hn)
  | input hn => exact .input (getElem?_of_grown hgrown hn)
  | and hn _ _ iha ihb => exact .and (getElem?_of_grown hgrown hn) iha ihb

end HasDepth

end Aig
end LogicResynthesis
