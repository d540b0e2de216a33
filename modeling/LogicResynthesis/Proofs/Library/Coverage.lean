import Mathlib.Data.List.Permutation
import LogicResynthesis.Proofs.IndexList.Decoding
import LogicResynthesis.Proofs.Library.ClassIndex
import LogicResynthesis.Proofs.Npn.ClassTable
import LogicResynthesis.Resynthesis.Engine

/-!
# The index is exact

Under the standard table of classes a function and its complement are of one
class, so at most one of them is a representative. The index lists a
representative if some node computes it or its complement; the entry then holds
every such node once, in node order, complemented where it has to be.
-/

namespace LogicResynthesis

namespace Npn

open Transform (wiring wiring_mem_all)

theorem equivalent_complement (f : Table4) : Equivalent f f.complement := by
  refine ⟨wiring id (fun _ => false) true, wiring_mem_all Function.injective_id _ _, ?_⟩
  ext x
  have hx : (wiring id (fun _ => false) true).canonicalRow x = x := by
    apply Assignment.ext_input
    intro k
    simp [Transform.input_canonicalRow]
  rw [Transform.row_unapply, hx, Table4.row_complement, Transform.output_wiring, Bool.xor_true]

namespace ClassTable

theorem isRepresentative_standard {f : Table4} :
    standard.isRepresentative f = true ↔ (canonical f).representative = f := by
  rw [isRepresentative_iff, representative_standard]

theorem isRepresentative_representative (f : Table4) :
    standard.isRepresentative (standard.representative f) = true := by
  rw [isRepresentative_standard, representative_standard, canonical_representative_self]

/-- A function and its complement share their smallest equivalent, which is not both of them. -/
theorem not_isRepresentative_complement {f : Table4}
    (hf : standard.isRepresentative f = true) : ¬standard.isRepresentative f.complement = true := by
  intro hcomplement
  rw [isRepresentative_standard] at hf hcomplement
  have hsame : f = f.complement := by
    rw [← hcomplement, ← (canonical_representative_eq_iff f f.complement).mpr
      (equivalent_complement f), hf]
  have hrow := congrArg (·.row 0) hsame
  simp at hrow

end ClassTable
end Npn

namespace Xag

variable {g : Xag}

theorem WellFormed.exists_tables (h : g.WellFormed) :
    ∃ tables : Array Table4, g.tables? = .ok tables ∧ tables.size = g.size ∧
      ∀ (n : Nat) (f : Table4), tables[n]? = some f →
        ∀ x, f.row x = g.value (rowInputs x) (.ofNode n) := by
  refine ⟨_, h.tables?_eq, by simp [size], fun n f hf x => ?_⟩
  rw [← row_table_eq_value, readTable, Array.getD_eq_getD_getElem?]
  simp only [Signal.ofNode, hf]
  rfl

end Xag

namespace ClassIndex

open Npn ClassTable

theorem register?_eq_some_iff {f r : Table4} {n : Nat} {s : Signal} :
    register? standard f n = some (r, s) ↔
      standard.isRepresentative r = true ∧ s.node = n ∧ f = r.complementIf s.negated := by
  constructor
  · intro h
    obtain ⟨hnode, hr⟩ := register?_eq_some h
    unfold register? at h
    split_ifs at h with hplain hnegated <;> obtain ⟨rfl, rfl⟩ := Prod.mk.inj (Option.some.inj h)
    · exact ⟨hplain, rfl, rfl⟩
    · exact ⟨hnegated, rfl, f.complement_complement.symm⟩
  · rintro ⟨hr, rfl, rfl⟩
    obtain ⟨n, negated⟩ := s
    cases negated with
    | false => exact if_pos hr
    | true =>
      have hback : standard.isRepresentative r.complement.complement = true := by
        rwa [Table4.complement_complement]
      have hself : r.complement.complement = r := r.complement_complement
      refine (if_neg (not_isRepresentative_complement hr)).trans ((if_pos hback).trans ?_)
      exact congrArg (fun k => some (k, (⟨n, true⟩ : Signal))) hself

section OfTables

variable (tables : List Table4)

theorem mem_signals_ofTables {r : Table4} {s : Signal} :
    s ∈ (ofTables standard tables).signals r ↔
      standard.isRepresentative r = true ∧ tables[s.node]? = some (r.complementIf s.negated) := by
  rw [mem_signals, ofTables, List.mem_filterMap]
  constructor
  · rintro ⟨⟨f, n⟩, hmem, hregister⟩
    obtain ⟨hr, rfl, rfl⟩ := register?_eq_some_iff.mp hregister
    exact ⟨hr, List.mem_zipIdx_iff_getElem?.mp hmem⟩
  · rintro ⟨hr, htable⟩
    exact ⟨(_, s.node), List.mem_zipIdx_iff_getElem?.mpr htable,
      register?_eq_some_iff.mpr ⟨hr, rfl, rfl⟩⟩

theorem pairwise_zipIdx (k : Nat) : (tables.zipIdx k).Pairwise fun p q => p.2 < q.2 := by
  rw [← List.pairwise_map (f := Prod.snd), List.zipIdx_map_snd]
  exact List.pairwise_lt_range'

theorem pairwise_signals_ofTables (r : Table4) :
    ((ofTables standard tables).signals r).Pairwise fun s t => s.node < t.node := by
  have hentries : (ofTables standard tables).entries.Pairwise fun e d => e.2.node < d.2.node := by
    refine List.pairwise_filterMap.mpr ((pairwise_zipIdx tables 0).imp ?_)
    rintro ⟨f, n⟩ ⟨f', n'⟩ hlt ⟨r, s⟩ hs ⟨r', s'⟩ hs'
    obtain ⟨rfl, -⟩ := register?_eq_some hs
    obtain ⟨rfl, -⟩ := register?_eq_some hs'
    exact hlt
  refine List.pairwise_filterMap.mpr (hentries.imp ?_)
  intro e d hlt s hs t ht
  rw [Option.ite_none_right_eq_some, Option.some.injEq] at hs ht
  rw [← hs.2, ← ht.2]
  exact hlt

end OfTables

theorem get?_eq_some_iff {c : ClassIndex} {r : Table4} {signals : List Signal} :
    c.get? r = some signals ↔ c.signals r = signals ∧ signals ≠ [] := by
  unfold get?
  cases c.signals r with
  | nil => simp +contextual [eq_comm]
  | cons s rest =>
    constructor
    · rintro ⟨⟩
      exact ⟨rfl, List.cons_ne_nil s rest⟩
    · rintro ⟨rfl, -⟩
      rfl

theorem isSome_get?_iff {c : ClassIndex} {r : Table4} :
    (c.get? r).isSome = true ↔ ∃ s, s ∈ c.signals r := by
  unfold get?
  cases c.signals r <;> simp

/-- For nodes of the given functions: the keys are the representatives that some node computes up
to a complement, and the entry of a key holds all these nodes in order, each with the complement
that it takes. No node stands under two keys. -/
structure Exact (c : ClassIndex) (tables : Array Table4) : Prop where
  covers : ∀ k, (c.get? k).isSome = true ↔ standard.isRepresentative k = true ∧
    ∃ n : Nat, tables[n]? = some k ∨ tables[n]? = some k.complement
  mem_iff : ∀ k signals, c.get? k = some signals →
    ∀ s, s ∈ signals ↔ tables[s.node]? = some (k.complementIf s.negated)
  ascending : ∀ k signals, c.get? k = some signals →
    signals.Pairwise fun s t => s.node < t.node
  one_key : ∀ k k' signals signals', c.get? k = some signals → c.get? k' = some signals' →
    ∀ s ∈ signals, ∀ s' ∈ signals', s.node = s'.node → k = k'

theorem Exact.get?_eq_some {c : ClassIndex} {tables : Array Table4} (h : c.Exact tables)
    {k : Table4} (hk : standard.isRepresentative k = true) {signals : List Signal}
    (hne : signals ≠ []) (hascending : signals.Pairwise fun s t => s.node < t.node)
    (hlt : ∀ s ∈ signals, s.node < tables.size)
    (hmem : ∀ n < tables.size, ∀ negated,
      ⟨n, negated⟩ ∈ signals ↔ tables[n]? = some (k.complementIf negated)) :
    c.get? k = some signals := by
  have hmem' : ∀ s : Signal, s ∈ signals ↔ tables[s.node]? = some (k.complementIf s.negated) := by
    intro s
    constructor
    · intro hs
      exact (hmem s.node (hlt s hs) s.negated).mp hs
    · intro hs
      exact (hmem s.node (Array.getElem?_eq_some_iff.mp hs).1 s.negated).mpr hs
  obtain ⟨⟨n, negated⟩, hs⟩ := List.exists_mem_of_ne_nil _ hne
  have hsome : (c.get? k).isSome = true := by
    refine (h.covers k).mpr ⟨hk, n, ?_⟩
    have hn := (hmem' _).mp hs
    cases negated with
    | false => exact .inl hn
    | true => exact .inr hn
  obtain ⟨signals', hget⟩ := Option.isSome_iff_exists.mp hsome
  rw [hget, Option.some.injEq]
  refine (h.ascending k signals' hget).eq_of_mem_iff hascending fun s => ?_
  rw [h.mem_iff k signals' hget, hmem']

theorem eq_of_mem_signals {tables : List Table4} {k k' : Table4} {s s' : Signal}
    (hs : s ∈ (ofTables standard tables).signals k) (hs' : s' ∈ (ofTables standard tables).signals k')
    (hnode : s.node = s'.node) : k = k' := by
  obtain ⟨hk, hs⟩ := (mem_signals_ofTables tables).mp hs
  obtain ⟨hk', hs'⟩ := (mem_signals_ofTables tables).mp hs'
  rw [hnode, hs', Option.some.injEq] at hs
  cases hn : s.negated <;> cases hn' : s'.negated <;>
    simp only [hn, hn', Table4.complementIf, Bool.false_eq_true, if_true, if_false] at hs
  · exact hs.symm
  · exact absurd (hs ▸ hk) (not_isRepresentative_complement hk')
  · exact absurd (hs ▸ hk') (not_isRepresentative_complement hk)
  · rw [← k.complement_complement, ← hs, Table4.complement_complement]

theorem exact_ofTables (tables : Array Table4) : (ofTables standard tables.toList).Exact tables := by
  have hmem : ∀ k s, s ∈ (ofTables standard tables.toList).signals k ↔
      standard.isRepresentative k = true ∧ tables[s.node]? = some (k.complementIf s.negated) := by
    intro k s
    rw [mem_signals_ofTables, Array.getElem?_toList]
  refine ⟨?_, ?_, ?_, ?_⟩
  · intro k
    simp only [isSome_get?_iff, hmem]
    constructor
    · rintro ⟨⟨n, negated⟩, hk, hn⟩
      cases negated with
      | false => exact ⟨hk, n, Or.inl hn⟩
      | true => exact ⟨hk, n, Or.inr hn⟩
    · rintro ⟨hk, n, hn | hn⟩
      · exact ⟨⟨n, false⟩, hk, hn⟩
      · exact ⟨⟨n, true⟩, hk, hn⟩
  · intro k signals hget s
    obtain ⟨rfl, hne⟩ := get?_eq_some_iff.mp hget
    obtain ⟨t, ht⟩ := List.exists_mem_of_ne_nil _ hne
    rw [hmem]
    exact and_iff_right ((hmem k t).mp ht).1
  · intro k signals hget
    obtain ⟨rfl, -⟩ := get?_eq_some_iff.mp hget
    exact pairwise_signals_ofTables tables.toList k
  · intro k k' signals signals' hget hget' s hs s' hs' hnode
    obtain ⟨rfl, -⟩ := get?_eq_some_iff.mp hget
    obtain ⟨rfl, -⟩ := get?_eq_some_iff.mp hget'
    exact eq_of_mem_signals hs hs' hnode

theorem exists_exact {g : Xag} (hg : g.WellFormed) :
    ∃ tables c, g.tables? = .ok tables ∧ ofXag? standard g = .ok c ∧ c.Exact tables := by
  obtain ⟨tables, htables, -⟩ := hg.exists_tables
  refine ⟨tables, ofTables standard tables.toList, htables, ?_, exact_ofTables tables⟩
  rw [ofXag?, htables]
  rfl

/-- Every graph that the constructors lead to is simulated without a fault, each node with its
function, and the index made of that is exact. -/
theorem index_exact {g : Xag} (hg : g.Reachable) :
    ∃ tables c, g.tables? = .ok tables ∧ tables.size = g.size ∧
      (∀ (n : Nat) (f : Table4), tables[n]? = some f →
        ∀ x, f.row x = g.value (Xag.rowInputs x) (.ofNode n)) ∧
      ofXag? standard g = .ok c ∧ c.Exact tables ∧
      ∀ f, ¬(standard.isRepresentative f = true ∧
        standard.isRepresentative f.complement = true) := by
  obtain ⟨tables, htables, hsize, hrows⟩ := hg.wellFormed.exists_tables
  obtain ⟨tables', c, htables', hindex, hexact⟩ := exists_exact hg.wellFormed
  obtain rfl := Except.ok.inj (htables.symm.trans htables')
  refine ⟨tables, c, htables, hsize, hrows, hindex, hexact, ?_⟩
  rintro f ⟨hf, hcomplement⟩
  exact not_isRepresentative_complement hf hcomplement

section TwoCircuits

/-- Gate 5 computes the conjunction of the complements of inputs 2 and 3. Gate 8 computes the
complement of that, from gate 5 and the exclusive or of the inputs. -/
def twoCircuits : IndexList :=
  ⟨libraryInputs, [(7, 9), (8, 6), (11, 13), (14, 12)], [10, 17], libraryInputs_lt, by decide,
    by decide⟩

theorem nodes_twoCircuits : (twoCircuits.decodeInto Xag.empty).2.nodes =
    #[.constant, .input 0, .input 1, .input 2, .input 3, .and ⟨3, true⟩ ⟨4, true⟩,
      .xor ⟨3, false⟩ ⟨4, false⟩, .and ⟨5, true⟩ ⟨6, true⟩, .xor ⟨6, false⟩ ⟨7, false⟩] := by
  cbv

def tablesOfTwoCircuits : Array Table4 :=
  #[.zero, ⟨0xaaaa⟩, ⟨0xcccc⟩, ⟨0xf0f0⟩, ⟨0xff00⟩, ⟨0x000f⟩, ⟨0x0ff0⟩, ⟨0xf000⟩, ⟨0xfff0⟩]

theorem tables_twoCircuits :
    (twoCircuits.decodeInto Xag.empty).2.tables? = .ok tablesOfTwoCircuits := by
  rw [Xag.tables?, Xag.size, nodes_twoCircuits]
  decide +kernel

/-- No node computes the conjunction of all complemented inputs, or its complement. -/
theorem absent_tablesOfTwoCircuits : ¬∃ n : Nat, tablesOfTwoCircuits[n]? = some ⟨0x0001⟩ ∨
    tablesOfTwoCircuits[n]? = some (Table4.complement ⟨0x0001⟩) := by
  rintro ⟨n, hn⟩
  have hlt : n < tablesOfTwoCircuits.size := by
    rcases hn with hn | hn <;> exact (Array.getElem?_eq_some_iff.mp hn).1
  have habsent : ∀ n < tablesOfTwoCircuits.size, ¬(tablesOfTwoCircuits[n]? = some ⟨0x0001⟩ ∨
      tablesOfTwoCircuits[n]? = some (Table4.complement ⟨0x0001⟩)) := by decide
  exact habsent n hlt hn

theorem reachable_twoCircuits : (twoCircuits.decodeInto Xag.empty).2.Reachable :=
  (IndexList.reachable_decodeInto .empty twoCircuits).1

/-- The function of gate 5. -/
def nor : Table4 := ⟨0x000f⟩

theorem lookup_nor : standard.lookup nor = ⟨nor, Transform.identity⟩ :=
  lookup_of_countTrue (by decide) (by decide)

theorem isRepresentative_nor : standard.isRepresentative nor = true :=
  isRepresentative_of_countTrue (by decide) (by decide)

theorem Exact.get?_nor {c : ClassIndex} (h : c.Exact tablesOfTwoCircuits) :
    c.get? nor = some [⟨5, false⟩, ⟨8, true⟩] :=
  h.get?_eq_some isRepresentative_nor (by simp) (by decide) (by decide) (by decide)

/-- The class of gate 5 has both circuits, the second one complemented, and that of the inputs has
the last of them. A complement is no key, and neither is a representative without a node. -/
theorem index_exact_two_circuits :
    (twoCircuits.decodeInto Xag.empty).2.Reachable ∧
      ∃ c, (twoCircuits.decodeInto Xag.empty).2.tables? = .ok tablesOfTwoCircuits ∧
        ofXag? standard (twoCircuits.decodeInto Xag.empty).2 = .ok c ∧
        c.Exact tablesOfTwoCircuits ∧
        c.get? .zero = some [⟨0, false⟩] ∧ c.get? nor = some [⟨5, false⟩, ⟨8, true⟩] ∧
        c.get? ⟨0x00ff⟩ = some [⟨4, true⟩] ∧ c.get? nor.complement = none ∧
        c.get? ⟨0x0001⟩ = none := by
  obtain ⟨tables, c, htables, -, -, hindex, hexact, hnot⟩ := index_exact reachable_twoCircuits
  obtain rfl := Except.ok.inj (htables.symm.trans tables_twoCircuits)
  refine ⟨reachable_twoCircuits, c, tables_twoCircuits, hindex, hexact, ?_, hexact.get?_nor, ?_, ?_,
    ?_⟩
  · exact hexact.get?_eq_some (isRepresentative_of_countTrue (by decide) (by decide)) (by simp)
      (by decide) (by decide) (by decide)
  · exact hexact.get?_eq_some (isRepresentative_of_countTrue (by decide) (by decide)) (by simp)
      (by decide) (by decide) (by decide)
  · rw [← Option.not_isSome_iff_eq_none, hexact.covers]
    rintro ⟨hcomplement, -⟩
    exact hnot nor ⟨isRepresentative_nor, hcomplement⟩
  · rw [← Option.not_isSome_iff_eq_none, hexact.covers]
    exact fun hcovered => absent_tablesOfTwoCircuits hcovered.2

end TwoCircuits

end ClassIndex
end LogicResynthesis
