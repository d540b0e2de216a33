import Mathlib.Data.List.Sort
import LogicResynthesis.Proofs.Resynthesis.Sharing

/-!
# Accepting queries enumerate a class

A query whose offers are all accepted offers a copy of every library node that
computes the representative of its function or the complement of that. So which
nodes are copied and how many gates are requested depends on the class only.
-/

namespace LogicResynthesis
namespace Engine

open Npn (ClassTable Transform canonical)

/-- The nodes whose function is `r` or its complement, in ascending order. -/
def classNodes (tables : Array Table4) (r : Table4) : List Nat :=
  (List.range tables.size).filter fun n => tables[n]? = some r ∨ tables[n]? = some r.complement

theorem mem_classNodes {tables : Array Table4} {r : Table4} {n : Nat} :
    n ∈ classNodes tables r ↔ tables[n]? = some r ∨ tables[n]? = some r.complement := by
  rw [classNodes, List.mem_filter, List.mem_range, decide_eq_true_eq, and_iff_right_iff_imp]
  rintro (hn | hn) <;> exact (Array.getElem?_eq_some_iff.mp hn).1

theorem pairwise_classNodes (tables : Array Table4) (r : Table4) :
    (classNodes tables r).Pairwise (· < ·) :=
  List.pairwise_lt_range.filter _

/-- The candidates for a function of the class are its nodes in order, each with the complement
that makes it compute the representative. -/
structure Candidates (tables : Array Table4) (r : Table4) (candidates : List Signal) : Prop where
  nodes : candidates.map (·.node) = classNodes tables r
  computes : ∀ s ∈ candidates, tables[s.node]? = some (r.complementIf s.negated)

theorem Candidates.eq_nil_iff {tables : Array Table4} {r : Table4} {candidates : List Signal}
    (h : Candidates tables r candidates) :
    candidates = [] ↔ ¬∃ n : Nat, tables[n]? = some r ∨ tables[n]? = some r.complement := by
  simp only [← mem_classNodes, ← h.nodes]
  rw [← List.map_eq_nil_iff, List.eq_nil_iff_forall_not_mem, not_exists]

theorem candidates_ofTables (tables : Array Table4) (r : Table4)
    (hr : ClassTable.standard.isRepresentative r = true) :
    Candidates tables r
      ((ClassIndex.ofTables ClassTable.standard tables.toList).signals r) where
  nodes := by
    refine (List.pairwise_map.mpr (ClassIndex.pairwise_signals_ofTables tables.toList r)).eq_of_mem_iff
      (pairwise_classNodes tables r) fun n => ?_
    simp only [List.mem_map, ClassIndex.mem_signals_ofTables, mem_classNodes, Array.getElem?_toList]
    constructor
    · rintro ⟨⟨n, negated⟩, ⟨-, hn⟩, rfl⟩
      cases negated with
      | false => exact Or.inl hn
      | true => exact Or.inr hn
    · rintro (hn | hn)
      · exact ⟨⟨n, false⟩, ⟨hr, hn⟩, rfl⟩
      · exact ⟨⟨n, true⟩, ⟨hr, hn⟩, rfl⟩
  computes s hs := by
    have htable := ((ClassIndex.mem_signals_ofTables tables.toList).mp hs).2
    rwa [Array.getElem?_toList] at htable

variable {e : Engine}

theorem WellFormed.exists_candidates (h : e.WellFormed) :
    ∃ tables, e.library.tables? = .ok tables ∧ tables.size = e.library.size ∧
      (∀ (n : Nat) (f : Table4), tables[n]? = some f →
        ∀ x, f.row x = e.library.value (Xag.rowInputs x) (.ofNode n)) ∧
      ∀ f, Candidates tables (ClassTable.standard.representative f) (e.candidates f) := by
  obtain ⟨tables, htables, hsize, hrows⟩ := h.library.exists_tables
  refine ⟨tables, htables, hsize, hrows, fun f => ?_⟩
  have hindex : e.index = ClassIndex.ofTables ClassTable.standard tables.toList := by
    have hindex := h.index
    rw [ClassIndex.ofXag?, htables] at hindex
    exact (Except.ok.inj hindex).symm
  rw [candidates, hindex]
  exact candidates_ofTables tables _ (ClassTable.isRepresentative_representative f)

theorem candidates_eq_of_equivalent (e : Engine) {f f' : Table4} (h : Npn.Equivalent f f') :
    e.candidates f' = e.candidates f := by
  rw [candidates_eq, candidates_eq, (Npn.canonical_representative_eq_iff f f').mpr h]

section Runs

variable {σ τ : Type} [Network σ] [Network τ] {function function' : Table} {f f' : Table4}

/-- An accepting query has offered copies of all candidates, one each, and has requested the gates
in their cones. If there are none it has left its target alone. -/
structure Enumerated (e : Engine) (function : Table) (f : Table4) (leaves : List Signal)
    (target : σ) (outcome : Outcome σ) : Prop where
  copies : ∃ calls order memo, e.Requests function leaves (fun _ => true) target outcome calls ∧
    e.Materialised (ClassTable.standard.lookup f).transform leaves (e.candidates f) outcome.offers
      calls order memo
  counted : e.query function leaves (fun _ => true) (Counted.start target) =
    .ok ⟨outcome.offers, ⟨outcome.target, (e.library.gatesBelow .and (e.candidates f)).ncard,
      (e.library.gatesBelow .xor (e.candidates f)).ncard⟩⟩
  length : outcome.offers.length = (e.candidates f).length
  unchanged : outcome.offers = [] → outcome.target = target

theorem WellFormed.query_enumerated (h : e.WellFormed) (hf : function.toTable4? = some f)
    {leaves : List Signal} {target : σ} {outcome : Outcome σ}
    (hquery : e.query function leaves (fun _ => true) target = .ok outcome) :
    e.Enumerated function f leaves target outcome := by
  obtain ⟨hstop, calls, order, memo, hcalls, hgates⟩ := h.query_materialised hf hquery
  rw [hstop.resolve_right Bool.noConfusion] at hgates
  have hlength : outcome.offers.length = (e.candidates f).length := hgates.offers.length_eq.symm
  refine ⟨⟨calls, order, memo, hcalls, hgates⟩, ?_, hlength, fun hnone => ?_⟩
  · rw [← hgates.count_eq, ← hgates.count_eq, Counted.start, hcalls.counted, Nat.zero_add,
      Nat.zero_add]
  · obtain ⟨memo₀, -, hrun⟩ := h.query_eq hf leaves (fun _ => true) target
    rw [hnone] at hlength
    rw [hquery, List.eq_nil_of_length_eq_zero hlength.symm] at hrun
    rw [Except.ok.inj hrun]

/-- Accepting queries for two functions go through the same library nodes, with as many offers and
requests for gates of each kind, whatever their leaves and targets are. -/
structure EnumeratedAlike (e : Engine) (function function' : Table) (f f' : Table4) : Prop where
  candidates : e.candidates f' = e.candidates f
  runs : ∀ {σ τ : Type} [Network σ] [Network τ] (leaves leaves' : List Signal) (target : σ)
    (target' : τ) (outcome : Outcome σ) (outcome' : Outcome τ),
    e.query function leaves (fun _ => true) target = .ok outcome →
    e.query function' leaves' (fun _ => true) target' = .ok outcome' →
    outcome.offers.length = outcome'.offers.length ∧
      ∃ ands xors, e.query function leaves (fun _ => true) (Counted.start target) =
          .ok ⟨outcome.offers, ⟨outcome.target, ands, xors⟩⟩ ∧
        e.query function' leaves' (fun _ => true) (Counted.start target') =
          .ok ⟨outcome'.offers, ⟨outcome'.target, ands, xors⟩⟩

theorem WellFormed.enumeratedAlike (h : e.WellFormed) (hf : function.toTable4? = some f)
    (hf' : function'.toTable4? = some f') (hequivalent : Npn.Equivalent f f') :
    e.EnumeratedAlike function function' f f' where
  candidates := e.candidates_eq_of_equivalent hequivalent
  runs leaves leaves' target target' outcome outcome' hquery hquery' := by
    have hrun := h.query_enumerated hf hquery
    have hrun' := h.query_enumerated hf' hquery'
    have hcounted' := hrun'.counted
    rw [e.candidates_eq_of_equivalent hequivalent] at hcounted'
    refine ⟨?_, _, _, hrun.counted, hcounted'⟩
    rw [hrun.length, hrun'.length, e.candidates_eq_of_equivalent hequivalent]

end Runs

/-- The candidates for a function are the nodes of the library that simulate to the representative
of its class or to the complement, in node order. An accepting query offers a copy of each; it
offers none, and leaves its target alone, exactly if there is no such node. It does so on
all targets that operations lead to, and alike for all functions of the class. -/
theorem enumeration_exact {verbose : Bool} {words : List UInt32} {e : Engine}
    (h : ofWords verbose words = .ok e) :
    ∃ tables, e.library.tables? = .ok tables ∧ tables.size = e.library.size ∧
      (∀ (n : Nat) (f : Table4), tables[n]? = some f →
        ∀ x, f.row x = e.library.value (Xag.rowInputs x) (.ofNode n)) ∧
      ∀ function : Table, function.inputs ≤ 4 → ∃ f, function.toTable4? = some f ∧
        Candidates tables (ClassTable.standard.representative f) (e.candidates f) ∧
        (∀ {σ : Type} [Network σ] (leaves : List Signal) (target : σ) (outcome : Outcome σ),
          e.query function leaves (fun _ => true) target = .ok outcome →
          e.Enumerated function f leaves target outcome ∧
          (outcome.offers = [] ↔ ¬∃ n : Nat,
            tables[n]? = some (ClassTable.standard.representative f) ∨
              tables[n]? = some (ClassTable.standard.representative f).complement)) ∧
        (∀ (g : Xag) (leaves : List Signal), g.Reachable → (∀ s ∈ leaves, g.Has s) →
          ∃ outcome, e.query function leaves (fun _ => true) g = .ok outcome) ∧
        (∀ (b : Aig.Builder) (leaves : List Signal), b.Reachable → (∀ s ∈ leaves, b.Has s) →
          ∃ outcome, e.query function leaves (fun _ => true) b = .ok outcome) ∧
        ∀ (function' : Table) (f' : Table4), function'.toTable4? = some f' →
          (∃ t ∈ Transform.all, f' = t.unapply f) → e.EnumeratedAlike function function' f f' := by
  have hengine := wellFormed_of_ofWords h
  obtain ⟨tables, htables, hsize, hrows, hcandidates⟩ := hengine.exists_candidates
  refine ⟨tables, htables, hsize, hrows, fun function hinputs => ?_⟩
  obtain ⟨f, hf⟩ : ∃ f, function.toTable4? = some f := ⟨_, function.toTable4?_eq_some hinputs⟩
  refine ⟨f, hf, hcandidates f, ?_, ?_, ?_, ?_⟩
  · intro σ _ leaves target outcome hquery
    have hrun := hengine.query_enumerated hf hquery
    refine ⟨hrun, ?_⟩
    rw [← (hcandidates f).eq_nil_iff, ← List.length_eq_zero_iff, hrun.length,
      List.length_eq_zero_iff]
  · intro g leaves hg hleaves
    exact hengine.exists_outcome hg hleaves function _
  · intro b leaves hb hleaves
    exact hengine.exists_outcome hb hleaves function _
  · intro function' f' hf' hequivalent
    exact hengine.enumeratedAlike hf hf' hequivalent

section TwoCircuits

open ClassIndex (twoCircuits tablesOfTwoCircuits nor)

/-- Both circuits are offered for their class, with two gates of each kind; those for another
function of the class are as many. There is none for the conjunction of four inputs. -/
theorem enumeration_exact_two_circuits :
    ∃ index, ofWords false twoCircuits.toWords = .ok (ofTwoCircuits index) ∧
      Candidates tablesOfTwoCircuits nor [⟨5, false⟩, ⟨8, true⟩] ∧
      (ofTwoCircuits index).candidates nor = [⟨5, false⟩, ⟨8, true⟩] ∧
      (∃ outcome, (ofTwoCircuits index).query (.ofTable4 nor) twoLeaves (fun _ => true)
          Xag.empty.addInput.2.addInput.2 = .ok outcome ∧
        outcome.offers = [⟨3, false⟩, ⟨6, false⟩] ∧
        (ofTwoCircuits index).query (.ofTable4 nor) twoLeaves (fun _ => true)
          (Counted.start Xag.empty.addInput.2.addInput.2) =
            .ok ⟨[⟨3, false⟩, ⟨6, false⟩], ⟨outcome.target, 2, 2⟩⟩) ∧
      (ofTwoCircuits index).EnumeratedAlike (.ofTable4 nor) (.ofTable4 ⟨0x1111⟩) nor ⟨0x1111⟩ ∧
      ∃ outcome, (ofTwoCircuits index).query (.ofTable4 ⟨0x0001⟩) twoLeaves (fun _ => true)
          Xag.empty.addInput.2.addInput.2 = .ok outcome ∧
        outcome.offers = [] := by
  obtain ⟨index, he, hget⟩ := exists_ofWords_two_circuits
  obtain ⟨tables, htables, -, -, henumeration⟩ := enumeration_exact he
  obtain rfl := Except.ok.inj (htables.symm.trans ClassIndex.tables_twoCircuits)
  have hreachable : Xag.empty.addInput.2.addInput.2.Reachable := .addInput (.addInput .empty)
  have hleaves : ∀ s ∈ twoLeaves, Xag.empty.addInput.2.addInput.2.Has s := by
    simp [twoLeaves, Xag.Has, Xag.empty, Xag.addInput]
  obtain ⟨f, hf, hcandidates, hruns, hxag, -, halike⟩ :=
    henumeration (.ofTable4 nor) (Nat.le_refl 4)
  obtain rfl := Option.some.inj (hf.symm.trans (Table.toTable4?_ofTable4 nor))
  obtain ⟨f', hf', -, hruns', hxag', -⟩ := henumeration (.ofTable4 ⟨0x0001⟩) (Nat.le_refl 4)
  obtain rfl := Option.some.inj (hf'.symm.trans (Table.toTable4?_ofTable4 ⟨0x0001⟩))
  rw [candidates_nor hget, ClassTable.representative, ClassIndex.lookup_nor] at hcandidates
  refine ⟨index, he, hcandidates, candidates_nor hget, ?_, ?_, ?_⟩
  · obtain ⟨outcome, hquery⟩ := hxag _ twoLeaves hreachable hleaves
    obtain ⟨hands, hxors⟩ := gatesBelow_two_circuits index
    have hcounted := (hruns twoLeaves _ outcome hquery).1.counted
    rw [candidates_nor hget, hands, hxors, Set.ncard_pair (by decide),
      Set.ncard_pair (by decide)] at hcounted
    obtain ⟨hoffers, -⟩ := outcome_two_circuits hget hquery
    exact ⟨outcome, hquery, hoffers, hoffers ▸ hcounted⟩
  · exact halike (.ofTable4 ⟨0x1111⟩) ⟨0x1111⟩ (Table.toTable4?_ofTable4 _)
      ⟨⟨#v[2, 3, 0, 1], ⟨0, false⟩⟩, by decide +kernel, by decide +kernel⟩
  · obtain ⟨outcome, hquery⟩ := hxag' _ twoLeaves hreachable hleaves
    have hempty := (hruns' twoLeaves _ outcome hquery).2
    have hrepresentative : ClassTable.standard.representative ⟨0x0001⟩ = ⟨0x0001⟩ :=
      ClassTable.representative_of_countTrue (by decide) (by decide)
    rw [hrepresentative] at hempty
    exact ⟨outcome, hquery, hempty.mpr ClassIndex.absent_tablesOfTwoCircuits⟩

end TwoCircuits

end Engine
end LogicResynthesis
