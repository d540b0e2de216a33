import Mathlib.Data.Set.Card
import LogicResynthesis.Cli.Query
import LogicResynthesis.Proofs.Aig.Builder
import LogicResynthesis.Proofs.Aig.Listing

/-!
# Reviews of candidates

Candidates that pass the check are all reported, each under its number and with
the number of the gates below it. Neither the report nor the listing of a
candidate changes when the builder grows.
-/

namespace LogicResynthesis

namespace Aig

/-- The number of gates that fanins lead to from a node, the node itself included. -/
noncomputable def gateCount (nodes : Array Node) (n : Nat) : Nat := {k | GateBelow nodes n k}.ncard

end Aig

namespace Cli

open Aig (Builder Netlist gateCount)

section Candidate

variable {b : Builder} {s : Signal}

theorem closed_candidateNetlist (h : b.WellFormed) (hs : b.Has s) (index : Nat) :
    (candidateNetlist b index s).Closed where
  ordered := h.closed.ordered
  outputs_lt p hp := by
    obtain rfl : p = _ := List.mem_singleton.mp hp
    exact hs

theorem numLiveGates_candidate (h : b.WellFormed) (hs : b.Has s) (index : Nat) :
    (candidateNetlist b index s).numLiveGates = .ok (gateCount b.netlist.nodes s.node) := by
  have hbelow : (candidateNetlist b index s).gatesBelowOutputs =
      {k | Aig.GateBelow b.netlist.nodes s.node k} := by
    ext k
    simp [Netlist.gatesBelowOutputs, candidateNetlist]
  rw [(closed_candidateNetlist h hs index).numLiveGates_eq, hbelow, gateCount]

def listingOf (b : Builder) (index : Nat) (s : Signal) : List String :=
  ((candidateNetlist b index s).lines.toOption).getD []

theorem lines_candidate (h : b.WellFormed) (hs : b.Has s) (index : Nat) :
    (candidateNetlist b index s).lines = .ok (listingOf b index s) := by
  obtain ⟨live, hlive, -⟩ := (closed_candidateNetlist h hs index).liveGates_ok
  rw [listingOf, (closed_candidateNetlist h hs index).lines_eq hlive]
  rfl

end Candidate

/-- The reports of some candidates, the first of which has the given number. -/
noncomputable def reportsOf (b : Builder) (index : Nat) (offers : List Signal) :
    List CandidateReport :=
  offers.mapIdx fun i s => ⟨index + i, gateCount b.netlist.nodes s.node⟩

/-- The listings of some candidates, if they are asked for. -/
def listingsOf (b : Builder) (listing : Bool) (index : Nat) (offers : List Signal) :
    List String :=
  if listing then (offers.mapIdx fun i s => listingOf b (index + i) s).flatten else []

section Review

variable {b : Builder} {vars : List Table4} {expected : Table4} {offers : List Signal}

theorem reportsOf_cons (b : Builder) (index : Nat) (s : Signal) (offers : List Signal) :
    reportsOf b index (s :: offers) =
      ⟨index, gateCount b.netlist.nodes s.node⟩ :: reportsOf b (index + 1) offers := by
  simp only [reportsOf, List.mapIdx_cons, Nat.add_zero, Nat.add_assoc, Nat.add_comm 1]

theorem listingsOf_cons (b : Builder) (listing : Bool) (index : Nat) (s : Signal)
    (offers : List Signal) :
    listingsOf b listing index (s :: offers) =
      (if listing then listingOf b index s else []) ++ listingsOf b listing (index + 1) offers := by
  cases listing with
  | false => rfl
  | true => simp [listingsOf, List.mapIdx_cons, Nat.add_assoc, Nat.add_comm 1]

theorem review_ok (h : b.WellFormed) (listing : Bool) (index : Nat)
    (hoffers : ∀ s ∈ offers, b.Has s ∧
      Aig.simulate b.nodes b.netlist.inputs.toList vars s = .ok expected) :
    review b vars expected listing index offers =
      .ok ⟨listingsOf b listing index offers, reportsOf b index offers, none⟩ := by
  induction offers generalizing index with
  | nil => cases listing <;> rfl
  | cons s offers ih =>
    obtain ⟨hs, hsimulate⟩ := hoffers s List.mem_cons_self
    have hrest := ih (index + 1) fun t ht => hoffers t (List.mem_cons_of_mem _ ht)
    rw [review, hsimulate, listingsOf_cons, reportsOf_cons]
    simp only [bind, Except.bind, pure, Except.pure, ne_eq, not_true_eq_false, if_false,
      lines_candidate h hs, numLiveGates_candidate h hs, hrest]
    cases listing <;> rfl

end Review

section Grown

variable {b b' : Builder} {s : Signal}

theorem gateCount_of_grown (h : b.WellFormed) (hgrows : b.GrowsTo b') (hs : b.Has s) :
    gateCount b'.netlist.nodes s.node = gateCount b.netlist.nodes s.node := by
  unfold gateCount
  congr 1
  ext k
  exact Aig.gateBelow_iff_of_grown h.closed.ordered hgrows.nodes hs

theorem reportsOf_of_grown (h : b.WellFormed) (hgrows : b.GrowsTo b') {offers : List Signal}
    (hoffers : ∀ s ∈ offers, b.Has s) (index : Nat) :
    reportsOf b' index offers = reportsOf b index offers := by
  induction offers generalizing index with
  | nil => rfl
  | cons s offers ih =>
    rw [reportsOf_cons, reportsOf_cons,
      gateCount_of_grown h hgrows (hoffers s List.mem_cons_self),
      ih fun t ht => hoffers t (List.mem_cons_of_mem _ ht)]

theorem listingOf_of_grown (h : b.WellFormed) (h' : b'.WellFormed) (hgrows : b.GrowsTo b')
    (hs : b.Has s) (index : Nat) : listingOf b' index s = listingOf b index s := by
  have hclosed := closed_candidateNetlist h hs index
  have hclosed' := closed_candidateNetlist h' (hgrows.has hs) index
  rw [listingOf, listingOf, Aig.lines_of_grown hclosed hclosed' hgrows.nodes rfl hgrows.inputs rfl]

theorem listingsOf_of_grown (h : b.WellFormed) (h' : b'.WellFormed) (hgrows : b.GrowsTo b')
    {offers : List Signal} (hoffers : ∀ s ∈ offers, b.Has s) (listing : Bool) (index : Nat) :
    listingsOf b' listing index offers = listingsOf b listing index offers := by
  induction offers generalizing index with
  | nil => rfl
  | cons s offers ih =>
    rw [listingsOf_cons, listingsOf_cons,
      listingOf_of_grown h h' hgrows (hoffers s List.mem_cons_self),
      ih fun t ht => hoffers t (List.mem_cons_of_mem _ ht)]

end Grown

end Cli
end LogicResynthesis
