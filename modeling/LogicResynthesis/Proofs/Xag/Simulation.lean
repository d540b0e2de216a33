import LogicResynthesis.Proofs.Xag.Semantics
import LogicResynthesis.Xag.Simulation

/-!
# Simulation gives the functions of the signals

Each row of a simulated table is the value under the assignment that the row
stands for.
-/

namespace LogicResynthesis
namespace Xag

/-- The values of the inputs on a row; inputs past the fourth are `false`. -/
def rowInputs (x : Assignment) (i : Nat) : Bool := x.val.testBit i

def readTable (tables : Array Table4) (s : Signal) : Table4 :=
  (tables.getD s.node .zero).complementIf s.negated

/-- The function of a node, given those of the earlier nodes. -/
def entryTable (tables : Array Table4) : Node → Table4
  | .constant => .zero
  | .input i => inputTable i
  | .and x y => (readTable tables x).conj (readTable tables y)
  | .xor x y => (readTable tables x).exclusiveOr (readTable tables y)

theorem row_inputTable (i : Nat) (x : Assignment) : (inputTable i).row x = rowInputs x i := by
  unfold inputTable rowInputs
  by_cases hi : i < 4
  · rw [dif_pos hi, Table4.row_projection]
    rfl
  · rw [dif_neg hi, Table4.row_zero, Nat.testBit_lt_two_pow]
    have hpow : 2 ^ 4 ≤ 2 ^ i := Nat.pow_le_pow_right (by decide) (Nat.not_lt.mp hi)
    exact Nat.lt_of_lt_of_le x.isLt hpow

theorem row_readTable (tables : Array Table4) (s : Signal) (x : Assignment) :
    (readTable tables s).row x = readValue (tables.map (·.row x)) s := by
  unfold readTable readValue
  rw [Table4.row_complementIf, Array.getD_eq_getD_getElem?, Array.getD_eq_getD_getElem?,
    Array.getElem?_map]
  cases tables[s.node]? with
  | none => exact congrArg (· ^^ s.negated) (Table4.row_zero x)
  | some f => rfl

theorem row_entryTable (x : Assignment) (tables : Array Table4) (node : Node) :
    entryValue (rowInputs x) (tables.map (·.row x)) node = (entryTable tables node).row x := by
  cases node with
  | constant => exact (Table4.row_zero x).symm
  | input i => exact (row_inputTable i x).symm
  | and a b => rw [entryTable, Table4.row_conj, row_readTable, row_readTable, entryValue]
  | xor a b => rw [entryTable, Table4.row_exclusiveOr, row_readTable, row_readTable, entryValue]

variable {g : Xag}

theorem WellFormed.tables?_eq (h : g.WellFormed) :
    g.tables? = .ok (tabulate entryTable g.nodes.toList) := by
  have hread : ∀ (tables : Array Table4) (s : Signal), g.Has s →
      readTable? g.size tables s = .ok (readTable tables s) := fun tables s hs => if_pos hs
  rw [tables?, ← Array.foldlM_toList]
  apply foldlM_eq_tabulate
  intro n node hnode
  have hn : g.nodes[n]? = some node := by simpa using hnode
  have hlt := (Array.getElem?_eq_some_iff.mp hn).1
  have hfanins : ∀ s ∈ node.fanins, g.Has s := fun s hs =>
    Nat.lt_trans (h.ordered n node hn s hs) hlt
  cases node with
  | constant => rfl
  | input i => rfl
  | and a b =>
    rw [nodeTable?, hread _ a (hfanins a (by simp [Node.fanins])),
      hread _ b (hfanins b (by simp [Node.fanins]))]
    rfl
  | xor a b =>
    rw [nodeTable?, hread _ a (hfanins a (by simp [Node.fanins])),
      hread _ b (hfanins b (by simp [Node.fanins]))]
    rfl

theorem row_table_eq_value (g : Xag) (s : Signal) (x : Assignment) :
    (readTable (tabulate entryTable g.nodes.toList) s).row x = g.value (rowInputs x) s := by
  rw [row_readTable, map_tabulate (row_entryTable x)]
  rfl

end Xag
end LogicResynthesis
