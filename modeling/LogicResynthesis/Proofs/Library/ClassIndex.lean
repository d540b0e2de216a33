import LogicResynthesis.Library.ClassIndex
import LogicResynthesis.Proofs.Xag.Simulation

/-!
# Registered signals compute their representatives

Whatever table of classes decides which functions are representatives, a signal
is registered under the function that it computes.
-/

namespace LogicResynthesis
namespace ClassIndex

open Npn (ClassTable)

theorem register?_eq_some {T : ClassTable} {f r : Table4} {n : Nat} {s : Signal}
    (h : register? T f n = some (r, s)) : s.node = n ∧ r = f.complementIf s.negated := by
  unfold register? at h
  split_ifs at h with hplain hnegated <;> obtain ⟨rfl, rfl⟩ := Prod.mk.inj (Option.some.inj h)
  · exact ⟨rfl, rfl⟩
  · exact ⟨rfl, rfl⟩

theorem mem_entries_ofTables {T : ClassTable} {tables : List Table4} {r : Table4} {s : Signal}
    (h : (r, s) ∈ (ofTables T tables).entries) :
    ∃ f, tables[s.node]? = some f ∧ r = f.complementIf s.negated := by
  obtain ⟨⟨f, n⟩, hmem, hregister⟩ := List.mem_filterMap.mp h
  obtain ⟨rfl, hr⟩ := register?_eq_some hregister
  exact ⟨f, List.mem_zipIdx_iff_getElem?.mp hmem, hr⟩

theorem signals_of_get? {c : ClassIndex} {r : Table4} {signals : List Signal}
    (h : c.get? r = some signals) : c.signals r = signals := by
  unfold get? at h
  cases hsignals : c.signals r with
  | nil => simp [hsignals] at h
  | cons s rest =>
    rw [hsignals] at h
    exact Option.some.inj h

/-- Each signal of a class computes its representative. -/
theorem computes_of_get? {T : ClassTable} {g : Xag} {c : ClassIndex} (hg : g.WellFormed)
    (hc : ofXag? T g = .ok c) {r : Table4} {signals : List Signal}
    (hsignals : c.get? r = some signals) {s : Signal} (hs : s ∈ signals) :
    g.Has s ∧ ∀ x, g.value (Xag.rowInputs x) s = r.row x := by
  rw [ofXag?, hg.tables?_eq] at hc
  obtain rfl := Except.ok.inj hc
  rw [← signals_of_get? hsignals, mem_signals] at hs
  obtain ⟨f, hf, rfl⟩ := mem_entries_ofTables hs
  have hlt := (List.getElem?_eq_some_iff.mp hf).1
  rw [Array.length_toList, size_tabulate, Array.length_toList] at hlt
  refine ⟨hlt, fun x => ?_⟩
  rw [← Xag.row_table_eq_value, Xag.readTable, Array.getD_eq_getD_getElem?, ← Array.getElem?_toList,
    hf]
  rfl

end ClassIndex
end LogicResynthesis
