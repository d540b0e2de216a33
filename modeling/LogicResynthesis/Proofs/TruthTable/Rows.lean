import Mathlib.Tactic.SplitIfs
import LogicResynthesis.TruthTable.Table

/-!
# Rows by the values of the inputs

The values of the inputs select a row, and widening a table to four inputs keeps
the output on it.
-/

namespace LogicResynthesis

/-- The row of a table over `n` inputs whose bit `k` is `v k`. -/
def rowOf (n : Nat) (v : Nat → Bool) : Nat := (column fun k : Fin n => v k).toNat

theorem testBit_rowOf (n : Nat) (v : Nat → Bool) (i : Nat) :
    (rowOf n v).testBit i = (decide (i < n) && v i) := by
  unfold rowOf
  rw [BitVec.testBit_toNat]
  by_cases hi : i < n
  · rw [getLsbD_column _ (⟨i, hi⟩ : Fin n)]
    simp [hi]
  · rw [BitVec.getLsbD_of_ge _ i (Nat.not_lt.mp hi)]
    simp [hi]

theorem rowOf_four_mod {n : Nat} (hn : n ≤ 4) (v : Nat → Bool) :
    rowOf 4 v % rowCount n = rowOf n v := by
  have hrows : rowCount n = 2 ^ n := rfl
  apply Nat.eq_of_testBit_eq
  intro i
  rw [hrows, Nat.testBit_mod_two_pow, testBit_rowOf, testBit_rowOf]
  by_cases hi : i < n
  · have hi' : i < 4 := Nat.lt_of_lt_of_le hi hn
    simp [hi, hi']
  · simp [hi]

theorem rowOf_lt (v : Nat → Bool) : rowOf 4 v < 16 := (column fun k : Fin 4 => v k).isLt

theorem input_rowOf (v : Nat → Bool) (k : Fin 4) :
    Assignment.input ⟨rowOf 4 v, rowOf_lt v⟩ k = v k := by
  rw [Assignment.input, testBit_rowOf]
  simp

theorem row_toTable4 {function : Table} {f : Table4} (h : function.toTable4? = some f)
    (v : Nat → Bool) :
    f.row ⟨rowOf 4 v, rowOf_lt v⟩ = function.row (rowOf function.inputs v) := by
  unfold Table.toTable4? at h
  split_ifs at h with hinputs
  obtain rfl := Option.some.inj h
  rw [Table4.row_ofRows, Table.rows, rowOf_four_mod hinputs]

end LogicResynthesis
