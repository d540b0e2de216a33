import LogicResynthesis.Proofs.Cli.Query
import LogicResynthesis.Proofs.Resynthesis.Limit

/-!
# Queries with a limit on the candidates

With a limit a query reports the first candidates of the query without one, under
the same numbers and with the same gates. A limit of one or more is the number of
candidates that are reported, if there are as many; a limit of zero acts like one
of one.
-/

namespace LogicResynthesis
namespace Cli

open Aig (Builder gateCount)

theorem gateCount_zero {b : Builder} (h : b.WellFormed) : gateCount b.netlist.nodes 0 = 0 := by
  have hempty : {k | Aig.GateBelow b.netlist.nodes 0 k} = ∅ := by
    refine Set.eq_empty_of_forall_notMem fun k hk => ?_
    obtain ⟨x, y, hand⟩ := hk.exists_and
    cases h.zero.symm.trans hand
  rw [gateCount, hempty, Set.ncard_empty]

theorem take_reportsOf (b : Builder) (index : Nat) (offers : List Signal) (n : Nat) :
    (reportsOf b index offers).take n = reportsOf b index (offers.take n) := by
  induction offers generalizing index n with
  | nil => simp [reportsOf]
  | cons s offers ih =>
    cases n with
    | zero => simp [reportsOf]
    | succ n => rw [reportsOf_cons, List.take_succ_cons, List.take_succ_cons, reportsOf_cons, ih]

section Run

variable {e : Engine} {q : QueryArguments} {function : Table} {full : Engine.Outcome Builder}

theorem runCommand_belowLimit (h : e.WellFormed) (t : Timings)
    (hread : Table.ofHex q.inputs q.function = .ok function) (hnarrow : q.inputs ≤ 4)
    (limit : Option Nat) :
    ∃ outcome, e.query function (queryInputs q.inputs).2 (Engine.belowLimit limit)
        (queryInputs q.inputs).1 = .ok outcome ∧ Answered function outcome ∧
      runCommand (.ok e) t (.query { q with limit := limit }) =
        .success (listingsOf outcome.target q.listing 0 outcome.offers ++
          reportLines q function (reportsOf outcome.target 0 outcome.offers)) := by
  have hinputs := inputs_of_ofHex hread
  obtain ⟨outcome, hquery, hanswered⟩ := exists_answered h function (Engine.belowLimit limit)
  rw [hinputs] at hquery
  -- the lines do not depend on the limit other than through the offers
  have hanswer := answerQuery_narrow (q := { q with limit := limit }) hinputs hnarrow hquery
    hanswered
  have hrun := runCommand_answered (q := { q with limit := limit }) rfl t hread hanswer
  exact ⟨outcome, hquery, hanswered, hrun⟩

theorem runCommand_limited (h : e.WellFormed) (t : Timings)
    (hread : Table.ofHex q.inputs q.function = .ok function) (hnarrow : q.inputs ≤ 4)
    (hfull : e.query function (queryInputs q.inputs).2 (fun _ => true) (queryInputs q.inputs).1 =
      .ok full) (hanswered : Answered function full) (n : Nat) :
    runCommand (.ok e) t (.query { q with limit := some n }) =
      .success (listingsOf full.target q.listing 0 (full.offers.take (max n 1)) ++
        reportLines q function ((reportsOf full.target 0 full.offers).take (max n 1))) := by
  have hover := overInputs_queryInputs q.inputs
  have hreachable : LawfulNetwork.Reachable (queryInputs q.inputs).1 := hover.reachable
  obtain ⟨limited, hquery, hoffers, hgrows⟩ :=
    h.query_limited hreachable hover.has function n hfull
  obtain ⟨limited', hquery', hlimited, hrun⟩ :=
    runCommand_belowLimit h t hread hnarrow (some n)
  obtain rfl := Except.ok.inj (hquery.symm.trans hquery')
  -- what is reported of a candidate stays the same while the builder grows
  have hlistings := listingsOf_of_grown hlimited.wellFormed hanswered.wellFormed hgrows
    hlimited.has q.listing 0
  have hreports := reportsOf_of_grown hlimited.wellFormed hgrows hlimited.has 0
  rw [hrun, ← hlistings, ← hreports, hoffers, take_reportsOf]

end Run

/-- Let a query for a function of at most four inputs report some candidates. With a limit it
reports, and lists if asked for, the first of them, as many as the limit says; the first one is
reported even if the limit is zero. -/
theorem query_limit_exact (verbose : Bool) (t : Timings) (q : QueryArguments) (function : Table)
    (hread : Table.ofHex q.inputs q.function = .ok function) (hnarrow : q.inputs ≤ 4) :
    ∃ e, (Engine.builtIn false).map (fun e => { e with verbose := verbose }) = .ok e ∧
      ∃ full, e.query function (queryInputs q.inputs).2 (fun _ => true) (queryInputs q.inputs).1 =
          .ok full ∧ Answered function full ∧
        runCommand (.ok e) t (.query { q with limit := none }) =
          .success (listingsOf full.target q.listing 0 full.offers ++
            reportLines q function (reportsOf full.target 0 full.offers)) ∧
        ∀ n, runCommand (.ok e) t (.query { q with limit := some n }) =
          .success (listingsOf full.target q.listing 0 (full.offers.take (max n 1)) ++
            reportLines q function ((reportsOf full.target 0 full.offers).take (max n 1))) := by
  obtain ⟨e, he, hengine⟩ := exists_engine verbose
  obtain ⟨full, hfull, hanswered, hrun⟩ := runCommand_belowLimit hengine t hread hnarrow none
  exact ⟨e, he, full, hfull, hanswered, hrun,
    runCommand_limited hengine t hread hnarrow hfull hanswered⟩

/-- At most two circuits are reported for the parity of four inputs. -/
theorem query_limit_exact_parity :
    ∃ function e full, Table.ofHex 4 "0x6996" = .ok function ∧
      (Engine.builtIn false).map (fun e => { e with verbose := true }) = .ok e ∧
      e.query function (queryInputs 4).2 (fun _ => true) (queryInputs 4).1 = .ok full ∧
      runCommand (.ok e) ⟨.zero, .zero⟩ (.query ⟨"0x6996", 4, some 2, false, true⟩) =
        .success (reportLines ⟨"0x6996", 4, some 2, false, true⟩ function
          ((reportsOf full.target 0 full.offers).take 2)) := by
  have hread : Table.ofHex 4 "0x6996" = .ok ⟨4, 0x6996, by decide⟩ := rfl
  obtain ⟨e, he, full, hfull, -, -, hlimited⟩ :=
    query_limit_exact true ⟨.zero, .zero⟩ ⟨"0x6996", 4, none, false, true⟩ _ hread (by decide)
  exact ⟨_, e, full, hread, he, hfull, hlimited 2⟩

/-- With the limit zero the constant is reported as a candidate for itself, although no candidate
was asked for. -/
theorem query_limit_zero :
    ∃ e full, (Engine.builtIn false).map (fun e => { e with verbose := false }) = .ok e ∧
      Table.ofHex 4 "0x0" = .ok (.ofTable4 .zero) ∧
      e.query (.ofTable4 .zero) (queryInputs 4).2 (fun _ => true) (queryInputs 4).1 = .ok full ∧
      runCommand (.ok e) ⟨.zero, .zero⟩ (.query ⟨"0x0", 4, none, false, false⟩) =
        .success (reportLines ⟨"0x0", 4, none, false, false⟩ (.ofTable4 .zero)
          (reportsOf full.target 0 full.offers)) ∧
      runCommand (.ok e) ⟨.zero, .zero⟩ (.query ⟨"0x0", 4, some 0, false, false⟩) =
        .success ["candidate 0: and_gates=0"] ∧
      runCommand (.ok e) ⟨.zero, .zero⟩ (.query ⟨"0x0", 4, some 0, false, false⟩) ≠
        .success (reportLines ⟨"0x0", 4, some 0, false, false⟩ (.ofTable4 .zero)
          ((reportsOf full.target 0 full.offers).take 0)) := by
  have hread : Table.ofHex 4 "0x0" = .ok (.ofTable4 .zero) := rfl
  obtain ⟨e, he, hengine⟩ := exists_engine false
  obtain ⟨full, hfull, hanswered, hrun⟩ := runCommand_belowLimit
    (q := ⟨"0x0", 4, none, false, false⟩) hengine ⟨.zero, .zero⟩ hread (by decide) none
  have hlimited := runCommand_limited (q := ⟨"0x0", 4, none, false, false⟩) hengine
    ⟨.zero, .zero⟩ hread (by decide) hfull hanswered 0
  obtain ⟨offer, later, hoffers, hnode⟩ :=
    hengine.exists_constant_offer (Table.toTable4?_ofTable4 .zero) hfull
  have hreports : (reportsOf full.target 0 full.offers).take (max 0 1) = [⟨0, 0⟩] := by
    rw [hoffers, reportsOf_cons, hnode, gateCount_zero hanswered.wellFormed]
    rfl
  rw [hreports] at hlimited
  have hone : runCommand (.ok e) ⟨.zero, .zero⟩ (.query ⟨"0x0", 4, some 0, false, false⟩) =
      .success ["candidate 0: and_gates=0"] := hlimited
  have hdigits : Text.hexDigits (Table.ofTable4 .zero).toNat = ['0'] := by
    rw [Text.hexDigits]
    rfl
  have hnone : reportLines ⟨"0x0", 4, some 0, false, false⟩ (.ofTable4 .zero) [] =
      ["no candidates for 0x0000"] := by
    rw [reportLines, Table.toHex, hdigits]
    rfl
  refine ⟨e, full, he, hread, hfull, hrun, hone, ?_⟩
  rw [hone, List.take_zero, hnone]
  decide

end Cli
end LogicResynthesis
