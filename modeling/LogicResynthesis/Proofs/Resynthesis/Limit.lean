import LogicResynthesis.Proofs.Resynthesis.Cancellation

/-!
# Queries with a limit

A limit stops a query when it has made that many offers, but at least one, since
offers are counted as they are made. What was built until then is what the query
without a limit had built by that time, and that only grows.
-/

namespace LogicResynthesis
namespace Engine

open Npn (ClassTable Transform canonical)
open LawfulNetwork (Reachable Has GrowsTo)

section Refusal

variable {offers : List Signal} {n : Nat}

theorem firstRefusal_max (hn : max n 1 ≤ offers.length) :
    FirstRefusal (belowLimit (some n)) offers (max n 1) := by
  rcases Nat.eq_zero_or_pos n with rfl | hpos
  · exact ⟨Nat.one_pos, hn, rfl, fun j hj hlt => absurd hlt (Nat.not_lt.mpr hj)⟩
  · have hmax : max n 1 = n := Nat.max_eq_left hpos
    rw [hmax] at hn ⊢
    exact firstRefusal_belowLimit hpos hn

theorem not_firstRefusal_belowLimit (hn : offers.length < max n 1) (k : Nat) :
    ¬FirstRefusal (belowLimit (some n)) offers k := by
  intro h
  have hpos := h.pos
  have hle := h.le
  have hrefused : ¬(offers.take k).length < n := of_decide_eq_false h.refused
  rw [List.length_take] at hrefused
  omega

end Refusal

section Growth

variable {σ : Type} [Network σ] [LawfulNetwork σ] {e : Engine} {target : σ}

/-- A run ends well, and its target has only grown since the start and since each of the calls. -/
structure Transcript.Grows (r : Transcript σ) (target : σ) (outcome : Outcome σ) : Prop where
  outcome_eq : r.outcome target = .ok outcome
  start : GrowsTo target outcome.target
  asked : ∀ ask ∈ r.asks, GrowsTo ask.target outcome.target

theorem Transcript.grows_nil (target : σ) :
    Transcript.Grows ⟨[], none⟩ target ⟨[], target⟩ where
  outcome_eq := rfl
  start := LawfulNetwork.grows_refl target
  asked := by simp

theorem Transcript.Grows.cons {r : Transcript σ} {ask : Ask σ} {outcome : Outcome σ}
    (h : r.Grows ask.target outcome) (hgrows : GrowsTo target ask.target) :
    (r.cons ask).Grows target ⟨ask.offer :: outcome.offers, outcome.target⟩ where
  outcome_eq := by
    rw [outcome_cons, h.outcome_eq]
    rfl
  start := LawfulNetwork.grows_trans hgrows h.start
  asked := by
    intro later hlater
    rcases List.mem_cons.mp hlater with rfl | hlater
    · exact h.start
    · exact h.asked later hlater

theorem Transcript.grows_single {ask : Ask σ} (hgrows : GrowsTo target ask.target) :
    Transcript.Grows ⟨[ask], none⟩ target ⟨[ask.offer], ask.target⟩ := by
  have hcons : ((⟨[], none⟩ : Transcript σ).cons ask).Grows target ⟨[ask.offer], ask.target⟩ :=
    (grows_nil ask.target).cons hgrows
  exact hcons

theorem WellFormed.offerTranscript_grows (h : e.WellFormed) {t : Transform}
    {inputs : (Nat → Bool) → Nat → Bool} (accept : List Signal → Bool) {candidates : List Signal}
    (hhas : ∀ s ∈ candidates, e.library.Has s) {c : Copy σ} (hc : c.Ready e.library inputs) :
    ∃ outcome, (offerTranscript e t accept candidates c).Grows c.target outcome := by
  induction candidates generalizing accept c with
  | nil => exact ⟨_, Transcript.grows_nil c.target⟩
  | cons candidate rest ih =>
    obtain ⟨s, c', hcone, hready, hgrows, -⟩ :=
      hc.addCone h.library (hhas candidate List.mem_cons_self)
    unfold offerTranscript
    rw [hcone]
    dsimp only
    split_ifs
    · obtain ⟨outcome, hrest⟩ := ih _ (fun s hs => hhas s (List.mem_cons_of_mem _ hs)) hready
      exact ⟨_, hrest.cons hgrows⟩
    · exact ⟨_, Transcript.grows_single hgrows⟩

theorem WellFormed.transcript_grows (h : e.WellFormed) (htarget : Reachable target)
    {leaves : List Signal} (hleaves : ∀ s ∈ leaves, Has target s) (function : Table)
    (accept : List Signal → Bool) :
    ∃ outcome, (e.transcript function leaves accept target).Grows target outcome := by
  have hnone : ∃ outcome, Transcript.Grows (⟨[], none⟩ : Transcript σ) target outcome :=
    ⟨_, Transcript.grows_nil target⟩
  unfold transcript
  cases function.toTable4? with
  | none => exact hnone
  | some f =>
    dsimp only
    rw [ClassTable.lookup_standard]
    cases hget : e.index.get? (canonical f).representative with
    | none => exact hnone
    | some candidates =>
      obtain ⟨memo, hseed, hseeded⟩ := h.seed_ok (canonical f).transform leaves
      dsimp only
      rw [hseed]
      exact h.offerTranscript_grows accept
        (fun s hs => (ClassIndex.computes_of_get? h.library h.index hget hs).1)
        (h.ready_of_seeded htarget hleaves hseeded)

end Growth

section Limited

variable {σ : Type} [Network σ] [LawfulNetwork σ] {e : Engine} {target : σ}

/-- A query with a limit makes the first offers of the query without one, whose target grows from
what the query with the limit leaves. -/
theorem WellFormed.query_limited (h : e.WellFormed) (htarget : Reachable target)
    {leaves : List Signal} (hleaves : ∀ s ∈ leaves, Has target s) (function : Table) (n : Nat)
    {full : Outcome σ} (hfull : e.query function leaves (fun _ => true) target = .ok full) :
    ∃ limited, e.query function leaves (belowLimit (some n)) target = .ok limited ∧
      limited.offers = full.offers.take (max n 1) ∧ GrowsTo limited.target full.target := by
  obtain ⟨outcome, hgrows⟩ := h.transcript_grows htarget hleaves function fun _ => true
  rw [query_eq_transcript] at hfull
  obtain rfl := Except.ok.inj (hgrows.outcome_eq.symm.trans hfull)
  have hoffers := Transcript.offers_of_outcome hfull
  rcases Nat.lt_or_ge outcome.offers.length (max n 1) with hshort | hlong
  · -- the limit is out of reach, so the two runs are the same
    refine ⟨outcome, ?_, ?_, LawfulNetwork.grows_refl _⟩
    · rw [query_eq_transcript, (e.transcript_cut function leaves _ target).accepted, hfull]
      rw [hoffers] at hshort
      exact not_firstRefusal_belowLimit hshort
    · rw [List.take_of_length_le (Nat.le_of_lt hshort)]
  · rw [hoffers] at hlong
    obtain ⟨last, hlast, hquery⟩ := (stopped_of_firstRefusal (firstRefusal_max hlong)).outcome
    refine ⟨_, hquery, ?_, hgrows.asked last (List.mem_of_getElem? hlast)⟩
    rw [hoffers]

end Limited

section Constant

variable {e : Engine}

theorem WellFormed.exists_constant_candidate (h : e.WellFormed) :
    ∃ first rest, e.candidates .zero = first :: rest ∧ first.node = 0 := by
  have hzero := h.library.zero
  have hmem : 0 ∈ (e.candidates .zero).map (·.node) :=
    h.mem_candidates_zero (Array.getElem?_eq_some_iff.mp hzero).1
      fun a => Xag.value_of_zero a hzero rfl
  have hsorted : ((e.candidates .zero).map (·.node)).Pairwise (· < ·) := by
    obtain ⟨tables, -, -, -, hcandidates⟩ := h.exists_candidates
    rw [(hcandidates .zero).nodes]
    exact pairwise_classNodes tables _
  cases hcandidates : e.candidates .zero with
  | nil =>
    rw [hcandidates] at hmem
    exact absurd hmem List.not_mem_nil
  | cons first rest =>
    rw [hcandidates, List.map_cons] at hmem hsorted
    refine ⟨first, rest, rfl, ?_⟩
    rcases List.mem_cons.mp hmem with hfirst | hlater
    · exact hfirst.symm
    · exact absurd (List.rel_of_pairwise_cons hsorted hlater) (Nat.not_lt_zero _)

theorem WellFormed.exists_constant_offer (h : e.WellFormed) {σ : Type} [Network σ]
    {function : Table} (hzero : function.toTable4? = some .zero) {leaves : List Signal}
    {target : σ} {outcome : Outcome σ}
    (hquery : e.query function leaves (fun _ => true) target = .ok outcome) :
    ∃ offer later, outcome.offers = offer :: later ∧ offer.node = 0 := by
  obtain ⟨calls, order, memo, -, hgates⟩ := (h.query_enumerated hzero hquery).copies
  obtain ⟨first, rest, hcandidates, hfirst⟩ := h.exists_constant_candidate
  have hoffers := hgates.offers
  rw [hcandidates] at hoffers
  obtain ⟨offer, later, ⟨s, hs, rfl⟩, -, hcons⟩ := List.forall₂_cons_left_iff.mp hoffers
  rw [hfirst, hgates.constant] at hs
  obtain rfl := Option.some.inj hs
  exact ⟨_, later, hcons, rfl⟩

end Constant

end Engine
end LogicResynthesis
