import LogicResynthesis.Cli.Run
import LogicResynthesis.Proofs.Cli.Review
import LogicResynthesis.Proofs.Library.BuiltIn
import LogicResynthesis.Proofs.Resynthesis.Query
import LogicResynthesis.Proofs.TruthTable.Hex

/-!
# What a query writes

A query fails only if its function cannot be read. It is run in a builder with
the inputs `x0`, `x1` and so on; simulation over projections finds the function
for every candidate, so that all of them are reported.
-/

namespace LogicResynthesis
namespace Cli

open Aig (Builder Netlist gateCount)

section Inputs

def queryPort (k : Nat) : Aig.Port := ⟨s!"x{k}", .ofNode (k + 1)⟩

/-- The inputs `x0` to `x(n-1)` are nodes 1 to `n`, and the leaves are their signals. -/
structure OverInputs (n : Nat) (b : Builder) (leaves : List Signal) : Prop where
  reachable : b.Reachable
  size : b.netlist.nodes.size = n + 1
  ports : b.netlist.inputs.toList = (List.range n).map queryPort
  leaves_eq : leaves = (List.range n).map fun k => .ofNode (k + 1)
  value : ∀ a k, k < n → b.value a (.ofNode (k + 1)) = a k

variable {n : Nat} {b : Builder} {leaves : List Signal}

theorem OverInputs.addInput (h : OverInputs n b leaves) :
    OverInputs (n + 1) (b.addInput s!"x{n}").2 (leaves ++ [(b.addInput s!"x{n}").1]) := by
  have hsignal : (b.addInput s!"x{n}").1 = .ofNode (n + 1) := congrArg Signal.ofNode h.size
  have hcount : b.netlist.inputs.size = n := by
    rw [← Array.length_toList, h.ports, List.length_map, List.length_range]
  refine ⟨.addInput h.reachable _, ?_, ?_, ?_, ?_⟩
  · rw [Builder.addInput, Array.size_push, h.size]
  · rw [Builder.addInput, Array.toList_push, h.ports, List.range_succ, List.map_append]
    exact congrArg (fun s => _ ++ [(⟨s!"x{n}", s⟩ : Aig.Port)]) hsignal
  · rw [hsignal, h.leaves_eq, List.range_succ, List.map_append]
    rfl
  · intro a k hk
    rcases Nat.lt_or_eq_of_le (Nat.le_of_lt_succ hk) with hk | rfl
    · have hhas : b.Has (.ofNode (k + 1)) := by
        rw [Builder.Has, h.size]
        exact Nat.succ_lt_succ hk
      exact ((Builder.keeps_addInput b _).value_eq _ hhas a).trans (h.value a k hk)
    · have hlast := Builder.value_addInput b s!"x{k}" a
      rwa [hsignal, hcount] at hlast

theorem overInputs_queryInputs (n : Nat) :
    OverInputs n (queryInputs n).1 (queryInputs n).2 := by
  induction n with
  | zero =>
    exact ⟨.new "query" true true, rfl, rfl, rfl, fun _ _ hk => absurd hk (Nat.not_lt_zero _)⟩
  | succ n ih => exact ih.addInput

theorem OverInputs.leafValue (h : OverInputs n b leaves) (a : Nat → Bool) (k : Nat) :
    Engine.leafValue b leaves a k = (decide (k < n) && a k) := by
  rw [Engine.leafValue, h.leaves_eq, List.getElem?_map, Option.map_map]
  by_cases hk : k < n
  · have hvalue : LawfulNetwork.value b a (.ofNode (k + 1)) = a k := h.value a k hk
    rw [List.getElem?_range hk]
    simp [hk, hvalue]
  · rw [List.getElem?_eq_none (by simpa using hk)]
    simp [hk]

theorem OverInputs.has (h : OverInputs n b leaves) : ∀ s ∈ leaves, b.Has s := by
  intro s hs
  rw [h.leaves_eq] at hs
  obtain ⟨k, hk, rfl⟩ := List.mem_map.mp hs
  rw [Builder.Has, h.size]
  exact Nat.succ_lt_succ (List.mem_range.mp hk)

end Inputs

section Simulation

def projections (n : Nat) : List Table4 :=
  (List.range n).map fun k => .ofRows fun x => x.val.testBit k

theorem mapM_projection? {n : Nat} (hn : n ≤ 4) :
    (List.range n).mapM Table4.projection? = .ok (projections n) := by
  refine Netlist.mapM_eq_ok fun k hk => ?_
  exact dif_pos (Nat.lt_of_lt_of_le (List.mem_range.mp hk) hn)

theorem map_row_projections (n : Nat) (x : Assignment) :
    (projections n).map (·.row x) = (List.range n).map fun k => x.val.testBit k := by
  simp [projections]

theorem rowOf_testBit (x : Assignment) : rowOf 4 (fun k => x.val.testBit k) = x.val := by
  apply Nat.eq_of_testBit_eq
  intro i
  rw [testBit_rowOf]
  by_cases hi : i < 4
  · simp [hi]
  · have hpow : 2 ^ 4 ≤ 2 ^ i := Nat.pow_le_pow_right (by decide) (Nat.not_lt.mp hi)
    rw [Nat.testBit_lt_two_pow (Nat.lt_of_lt_of_le x.isLt hpow)]
    simp [hi]

variable {n : Nat} {b target : Builder} {leaves : List Signal} {function : Table} {f : Table4}

theorem simulate_of_computes (hports : target.netlist.inputs.toList = (List.range n).map queryPort)
    (htarget : target.WellFormed) (hinputs : function.inputs = n)
    (hwide : function.toTable4? = some f) {s : Signal} (hs : target.Has s)
    (hvalue : ∀ a, target.value a s = function.row (rowOf n a)) :
    Aig.simulate target.nodes target.netlist.inputs.toList (projections n) s = .ok f := by
  obtain ⟨f', hsimulate, hrow⟩ := Aig.simulate_value htarget.closed.ordered
    target.netlist.inputs.toList (projections n) hs
  refine hsimulate.trans (congrArg Except.ok ?_)
  ext x
  have hcount : target.netlist.inputs.size = n := by
    rw [← Array.length_toList, hports, List.length_map, List.length_range]
  have hleaf : (fun k => (Aig.leafTable target.netlist.inputs.toList (projections n) k).row x) =
      target.netlist.nodeInput fun k => x.val.testBit k := by
    funext k
    rw [Aig.row_leafTable, map_row_projections, Netlist.nodeInput, Netlist.inputValues, hcount]
  have hx : f.row x = function.row (rowOf n fun k => x.val.testBit k) := by
    rw [← hinputs, ← row_toTable4 hwide]
    congr 1
    exact Fin.ext (rowOf_testBit x).symm
  rw [hrow, hleaf, hx]
  exact hvalue _

end Simulation

theorem exists_engine (verbose : Bool) :
    ∃ e, (Engine.builtIn false).map (fun e => { e with verbose := verbose }) = .ok e ∧
      e.WellFormed := by
  obtain ⟨e, he⟩ := Engine.exists_builtIn false
  obtain ⟨hlibrary, hinputs, hindex⟩ := Engine.wellFormed_of_ofWords he
  exact ⟨{ e with verbose := verbose }, by rw [he]; rfl, hlibrary, hinputs, hindex⟩

section Answer

/-- The offers are signals over the inputs `x0` to `x(n-1)` that compute the function. -/
structure Answered (function : Table) (outcome : Engine.Outcome Builder) : Prop where
  wellFormed : outcome.target.WellFormed
  ports : outcome.target.netlist.inputs.toList = (List.range function.inputs).map queryPort
  has : ∀ s ∈ outcome.offers, outcome.target.Has s
  value : ∀ s ∈ outcome.offers, ∀ a,
    outcome.target.netlist.value? a s = .ok (function.row (rowOf function.inputs a))

theorem rowOf_congr {n : Nat} {v w : Nat → Bool} (h : ∀ k < n, v k = w k) :
    rowOf n v = rowOf n w := by
  apply Nat.eq_of_testBit_eq
  intro i
  rw [testBit_rowOf, testBit_rowOf]
  by_cases hi : i < n
  · rw [h i hi]
  · simp [hi]

variable {e : Engine} {function : Table}

/-- What a query leaves behind, whatever the callback. -/
theorem exists_answered (h : e.WellFormed) (function : Table) (accept : List Signal → Bool) :
    ∃ outcome, e.query function (queryInputs function.inputs).2 accept
        (queryInputs function.inputs).1 = .ok outcome ∧ Answered function outcome := by
  have hover := overInputs_queryInputs function.inputs
  have hreachable : LawfulNetwork.Reachable (queryInputs function.inputs).1 := hover.reachable
  obtain ⟨outcome, hquery, hsound⟩ := h.query_ok hreachable hover.has function accept
  have htarget : outcome.target.Reachable := hsound.reachable
  have hgrows : (queryInputs function.inputs).1.GrowsTo outcome.target := hsound.grows
  refine ⟨outcome, hquery, htarget.wellFormed, hgrows.inputs ▸ hover.ports, hsound.has, ?_⟩
  intro s hs a
  rw [htarget.value?_eq (hsound.has s hs)]
  refine congrArg Except.ok ((hsound.value s hs a).trans (congrArg function.row ?_))
  exact rowOf_congr fun k hk => by rw [hover.leafValue, decide_eq_true hk, Bool.true_and]

theorem Answered.simulate_ok {outcome : Engine.Outcome Builder} (h : Answered function outcome)
    {f : Table4} (hwide : function.toTable4? = some f) :
    ∀ s ∈ outcome.offers, outcome.target.Has s ∧
      Aig.simulate outcome.target.nodes outcome.target.netlist.inputs.toList
        (projections function.inputs) s = .ok f := by
  intro s hs
  refine ⟨h.has s hs, simulate_of_computes h.ports h.wellFormed rfl hwide (h.has s hs) fun a => ?_⟩
  have hvalue := h.value s hs a
  rw [h.wellFormed.closed.value?_eq a (h.has s hs)] at hvalue
  exact Except.ok.inj hvalue

variable {q : QueryArguments}

theorem answerQuery_narrow (hinputs : function.inputs = q.inputs) (hnarrow : q.inputs ≤ 4)
    {outcome : Engine.Outcome Builder}
    (hquery : e.query function (queryInputs q.inputs).2 (Engine.belowLimit q.limit)
      (queryInputs q.inputs).1 = .ok outcome) (hanswered : Answered function outcome) :
    answerQuery e q function =
      .ok ⟨listingsOf outcome.target q.listing 0 outcome.offers ++
        reportLines q function (reportsOf outcome.target 0 outcome.offers), none⟩ := by
  have hwide := function.toTable4?_eq_some (hinputs ▸ hnarrow)
  have hreview := review_ok hanswered.wellFormed q.listing 0 (hanswered.simulate_ok hwide)
  rw [hinputs] at hreview
  unfold answerQuery
  generalize queryInputs q.inputs = start at hquery ⊢
  dsimp only at hquery ⊢
  simp only [hquery, bind, Except.bind, hwide, mapM_projection? hnarrow, hreview]
  rfl

theorem answerQuery_wide (hinputs : function.inputs = q.inputs) (hwide : 4 < q.inputs)
    {outcome : Engine.Outcome Builder}
    (hquery : e.query function (queryInputs q.inputs).2 (Engine.belowLimit q.limit)
      (queryInputs q.inputs).1 = .ok outcome) :
    answerQuery e q function =
      .ok ⟨[s!"{q.inputs}-input functions are not supported; no candidates"], none⟩ := by
  have hnone : function.toTable4? = none := if_neg (by omega)
  unfold answerQuery
  generalize queryInputs q.inputs = start at hquery ⊢
  dsimp only at hquery ⊢
  simp only [hquery, bind, Except.bind, hnone]
  rfl

end Answer

theorem inputs_of_ofHex {n : Nat} {text : String} {function : Table}
    (h : Table.ofHex n text = .ok function) : function.inputs = n := by
  obtain ⟨-, v, -, -, -, hcolumn⟩ := Table.ofHex_eq_ok_iff.mp h
  exact hcolumn.inputs

section Command

variable {engine : Except EngineError Engine} {e : Engine} {q : QueryArguments} {function : Table}

theorem runCommand_unread (engine : Except EngineError Engine) (t : Timings) {cause : HexError}
    (h : Table.ofHex q.inputs q.function = .error cause) :
    runCommand engine t (.query q) = .failure []
      s!"query: parsing truth table {Text.quoted q.function}: {cause.message}" := by
  rw [runCommand, runQuery, h]
  rfl

theorem runCommand_answered (hengine : engine = .ok e) (t : Timings)
    (h : Table.ofHex q.inputs q.function = .ok function) {lines : List String}
    (hanswer : answerQuery e q function = .ok ⟨lines, none⟩) :
    runCommand engine t (.query q) = .success lines := by
  rw [runCommand, runQuery, h, hengine]
  simp only [hanswer, Except.mapError]
  rfl

end Command

/-- A query fails only if its function cannot be read. A function of five or six inputs is said not
to be supported. For a narrower one every offer is reported, with the number of the gates below it:
it computes the function over the inputs `x0`, `x1` and so on, so none fails the check. -/
theorem query_never_fails (verbose : Bool) (t : Timings) (q : QueryArguments) :
    ∃ e, (Engine.builtIn false).map (fun e => { e with verbose := verbose }) = .ok e ∧
      (∀ cause, Table.ofHex q.inputs q.function = .error cause →
        runCommand (.ok e) t (.query q) = .failure []
          s!"query: parsing truth table {Text.quoted q.function}: {cause.message}") ∧
      ∀ function, Table.ofHex q.inputs q.function = .ok function →
        ∃ outcome, e.query function (queryInputs q.inputs).2 (Engine.belowLimit q.limit)
            (queryInputs q.inputs).1 = .ok outcome ∧
          Answered function outcome ∧
          (4 < q.inputs → runCommand (.ok e) t (.query q) =
            .success [s!"{q.inputs}-input functions are not supported; no candidates"]) ∧
          (q.inputs ≤ 4 → runCommand (.ok e) t (.query q) =
            .success (listingsOf outcome.target q.listing 0 outcome.offers ++
              reportLines q function (reportsOf outcome.target 0 outcome.offers))) := by
  obtain ⟨e, he, hengine⟩ := exists_engine verbose
  refine ⟨e, he, fun cause => runCommand_unread _ t, fun function hread => ?_⟩
  have hinputs := inputs_of_ofHex hread
  obtain ⟨outcome, hquery, hanswered⟩ :=
    exists_answered hengine function (Engine.belowLimit q.limit)
  rw [hinputs] at hquery
  exact ⟨outcome, hquery, hanswered,
    fun hwide => runCommand_answered rfl t hread (answerQuery_wide hinputs hwide hquery),
    fun hnarrow =>
      runCommand_answered rfl t hread (answerQuery_narrow hinputs hnarrow hquery hanswered)⟩

/-- The conjunction of two inputs is answered. -/
theorem query_never_fails_conjunction :
    ∃ e function outcome,
      (Engine.builtIn false).map (fun e => { e with verbose := false }) = .ok e ∧
      Table.ofHex 2 "0x8" = .ok function ∧
      e.query function (queryInputs 2).2 (Engine.belowLimit (some 3)) (queryInputs 2).1 =
        .ok outcome ∧ Answered function outcome ∧
      runCommand (.ok e) ⟨.zero, .zero⟩ (.query ⟨"0x8", 2, some 3, true, false⟩) =
        .success (listingsOf outcome.target true 0 outcome.offers ++
          reportLines ⟨"0x8", 2, some 3, true, false⟩ function
            (reportsOf outcome.target 0 outcome.offers)) := by
  have hread : Table.ofHex 2 "0x8" = .ok ⟨2, 8, by decide⟩ := rfl
  obtain ⟨e, he, -, hanswers⟩ :=
    query_never_fails false ⟨.zero, .zero⟩ ⟨"0x8", 2, some 3, true, false⟩
  obtain ⟨outcome, hquery, hanswered, -, hnarrow⟩ := hanswers _ hread
  exact ⟨e, _, outcome, he, hread, hquery, hanswered, hnarrow (by decide)⟩

end Cli
end LogicResynthesis
