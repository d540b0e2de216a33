import LogicResynthesis.Proofs.Aig.Repetition
import LogicResynthesis.Proofs.Aig.Sessions
import LogicResynthesis.Proofs.Resynthesis.Answering
import LogicResynthesis.Proofs.Resynthesis.Enumeration
import LogicResynthesis.Proofs.Xag.Repetition

/-!
# Repeated queries

What a target that shares gates has answered, it answers again, however it has
been used since. So a query that is repeated makes the same requests and offers
the same signals. An XAG is left as it is; a builder gets gates that nothing
refers to.
-/

namespace LogicResynthesis

section Requests

variable {x y r : Signal}

theorem Performed.request?_again {g g' g'' : Xag} {calls : List Call} (h : Performed g calls g')
    (hknown : g'.KnownIn g'') :
    ∀ call ∈ calls, call.kind.request? g'' call.left call.right = .ok (call.answer, g'') := by
  induction h with
  | nil => simp
  | @concat calls call h₀ h₁ _ hrequest ih =>
    intro call' hcall'
    rcases List.mem_append.mp hcall' with hcall' | hcall'
    · exact ih ((Xag.knownIn_request? hrequest).trans hknown) call' hcall'
    · obtain rfl := List.mem_singleton.mp hcall'
      exact Xag.request?_again hrequest hknown

def GateKind.StandsFor : GateKind → Aig.Builder → Signal → Signal → Signal → Prop
  | and => Aig.Builder.StandsForAnd
  | xor => Aig.Builder.StandsForXor

open Aig (Builder)

variable {b b' b₀ : Builder} {kind : GateKind}

theorem GateKind.StandsFor.of_extends (h : kind.StandsFor b x y r) (hwf : b.WellFormed)
    (hx : b.Has x) (hy : b.Has y) (hext : b.Extends b') : kind.StandsFor b' x y r := by
  cases kind with
  | and => exact Builder.StandsForAnd.of_extends h hwf hx hy hext
  | xor => exact Builder.StandsForXor.of_extends h hwf hx hy hext

theorem Aig.Builder.Fed.standsFor (h : b.Fed) (hx : b.Has x) (hy : b.Has y)
    (hrequest : kind.request? b x y = .ok (r, b')) (hhashing : b'.hashing = true) :
    kind.StandsFor b' x y r := by
  cases kind with
  | and =>
    obtain ⟨r', b'', hadd, hb, -⟩ := h.addAnd hx hy
    obtain ⟨rfl, rfl⟩ := Prod.mk.inj (Except.ok.inj (hrequest.symm.trans hadd))
    exact hb.stands hhashing
  | xor =>
    obtain ⟨r', b'', hadd, hb⟩ := h.addXor hx hy
    obtain ⟨rfl, rfl⟩ := Prod.mk.inj (Except.ok.inj (hrequest.symm.trans hadd))
    exact hb.stands hhashing

def Aig.Builder.StandsForCall (b : Builder) (call : Call) : Prop :=
  b.hashing = true → call.kind.StandsFor b call.left call.right call.answer

theorem Aig.Builder.Repeats.request? (h : b₀.Repeats b) (hwf : b₀.WellFormed) (hx : b₀.Has x)
    (hy : b₀.Has y) (hr : kind.StandsFor b₀ x y r) :
    ∃ b', kind.request? b x y = .ok (r, b') ∧ b₀.Repeats b' := by
  cases kind with
  | and => exact h.addAnd hwf hx hy hr
  | xor => exact h.addXor hwf hx hy hr

end Requests

namespace Aig

variable {b b' : Builder} {x y r : Signal}

theorem Connective.reachable (op : Connective) (h : b.Reachable) (hx : b.Has x) (hy : b.Has y)
    (hadd : op.add? b x y = .ok (r, b')) : b'.Reachable := by
  cases op with
  | and => exact .addAnd h hx hy hadd
  | or => exact .addOr h hx hy hadd
  | xor => exact .addXor h hx hy hadd

theorem Connective.grows (op : Connective) (h : b.WellFormed) (hx : b.Has x) (hy : b.Has y)
    (hadd : op.add? b x y = .ok (r, b')) : b.GrowsTo b' := by
  have hanswers : ∃ f, b.Answers x y f (op.add? b x y) := by
    cases op with
    | and => exact ⟨_, Builder.addAnd_answers h hx hy⟩
    | or => exact ⟨_, Builder.addOr_answers h hx hy⟩
    | xor => exact ⟨_, Builder.addXor_answers h hx hy⟩
  obtain ⟨f, r', b'', hadd', -, hgrows, -⟩ := hanswers
  obtain ⟨-, rfl⟩ := Prod.mk.inj (Except.ok.inj (hadd.symm.trans hadd'))
  exact hgrows

namespace Builder

/-- An operation or a query, on signals of the builder, makes it the second one. -/
inductive Step : Builder → Builder → Prop
  | addInput (b : Builder) (name : String) : Step b (b.addInput name).2
  | addOutput {b : Builder} {x : Signal} (name : String) (hx : b.Has x) :
      Step b (b.addOutput name x)
  | gate {b b' : Builder} {x y r : Signal} (op : Connective) (hx : b.Has x) (hy : b.Has y)
      (hadd : op.add? b x y = .ok (r, b')) : Step b b'
  | depth? {b b' : Builder} {x : Signal} {depth : Nat} (hx : b.Has x)
      (hdepth : b.depth? x = .ok (some (depth, b'))) : Step b b'
  | query {b : Builder} {verbose : Bool} {words : List UInt32} {e : Engine} {function : Table}
      {leaves : List Signal} {accept : List Signal → Bool} {outcome : Engine.Outcome Builder}
      (he : Engine.ofWords verbose words = .ok e) (hleaves : ∀ s ∈ leaves, b.Has s)
      (hquery : e.query function leaves accept b = .ok outcome) : Step b outcome.target

def LeadsTo : Builder → Builder → Prop := Relation.ReflTransGen Step

theorem Step.keeps (h : Step b b') (hb : b.Reachable) : b'.Reachable ∧ b.Extends b' := by
  cases h with
  | addInput name => exact ⟨.addInput hb name, by simp [Builder.addInput], rfl, rfl⟩
  | addOutput name hx => exact ⟨.addOutput hb hx name, List.prefix_refl _, rfl, rfl⟩
  | gate op hx hy hadd =>
    exact ⟨op.reachable hb hx hy hadd, (op.grows hb.wellFormed hx hy hadd).extends⟩
  | depth? hx hdepth =>
    obtain ⟨-, hnetlist, hfolding, hhashing⟩ := hb.fed.depth? hx hdepth
    exact ⟨.depth? hb hx hdepth, by rw [hnetlist], hfolding, hhashing⟩
  | @query _ _ _ function leaves _ outcome he hleaves hquery =>
    have hsound : outcome.Sound function leaves b :=
      (Engine.wellFormed_of_ofWords he).sound_of_query hb hleaves hquery
    exact ⟨hsound.reachable, GrowsTo.extends hsound.grows⟩

theorem LeadsTo.keeps (h : b.LeadsTo b') (hb : b.Reachable) : b'.Reachable ∧ b.Extends b' := by
  induction h with
  | refl => exact ⟨hb, .refl b⟩
  | tail _ hstep ih =>
    obtain ⟨hreachable, hext⟩ := ih
    obtain ⟨hreachable', hext'⟩ := hstep.keeps hreachable
    exact ⟨hreachable', hext.trans hext'⟩

end Builder
end Aig

namespace Engine

open Aig (Builder)

variable {e : Engine} {function : Table} {leaves : List Signal} {accept : List Signal → Bool}

theorem WellFormed.exists_sourced {σ : Type} [Network σ] (h : e.WellFormed) {target : σ}
    {outcome : Outcome σ} (hquery : e.query function leaves accept target = .ok outcome) :
    ∃ calls, e.Requests function leaves accept target outcome calls ∧ Sourced leaves calls := by
  cases hf : function.toTable4? with
  | some f =>
    obtain ⟨-, calls, order, memo, hcalls, hgates⟩ := h.query_materialised hf hquery
    exact ⟨calls, hcalls, hgates.sourced⟩
  | none =>
    -- too wide a function has no candidates, and nothing is requested
    obtain rfl : ⟨[], target⟩ = outcome := by
      unfold query at hquery
      rw [hf] at hquery
      exact Except.ok.inj hquery
    refine ⟨[], ⟨fun earlier => ?_, fun ands xors => ?_⟩, .nil⟩
    · unfold query
      rw [hf, List.append_nil]
    · unfold query
      rw [hf]
      rfl

theorem query_again {g g' : Xag} {outcome : Outcome Xag}
    (hquery : e.query function leaves accept g = .ok outcome) (hknown : outcome.target.KnownIn g') :
    e.query function leaves accept g' = .ok ⟨outcome.offers, g'⟩ := by
  obtain ⟨calls, hcalls⟩ := exists_requests hquery
  have hrepeats : ∀ call ∈ calls, call.Repeats (· = g') := by
    rintro call hcall _ rfl
    exact ⟨_, hcalls.performed.request?_again hknown call hcall, rfl⟩
  obtain ⟨_, hagain, rfl⟩ := query_replay hcalls hrepeats rfl
  exact hagain

theorem WellFormed.query_repeats (h : e.WellFormed) {b b₀ : Builder} (hb : b.Reachable)
    (hhashing : b.hashing = true) (hleaves : ∀ s ∈ leaves, b.Has s) {outcome : Outcome Builder}
    (hquery : e.query function leaves accept b = .ok outcome) (hb₀ : b₀.Reachable)
    (hext : outcome.target.Extends b₀) :
    ∃ b', e.query function leaves accept b₀ = .ok ⟨outcome.offers, b'⟩ ∧ b₀.Repeats b' := by
  obtain ⟨calls, hcalls, hsourced⟩ := h.exists_sourced hquery
  have hnew : ∀ (b b₁ : Builder) (call : Call), b.Reachable → b₁.Reachable → b.Has call.left →
      b.Has call.right → call.kind.request? b call.left call.right = .ok (call.answer, b₁) →
      b₁.StandsForCall call :=
    fun b b₁ call hb _ hl hr hrequest => hb.fed.standsFor hl hr hrequest
  have hkeep : ∀ (b b₁ : Builder) (call : Call), b.Reachable → b₁.Reachable → b.GrowsTo b₁ →
      b.Has call.left → b.Has call.right → b.StandsForCall call → b₁.StandsForCall call :=
    fun b b₁ call hb _ hgrows hl hr hstands hhashing =>
      (hstands (hgrows.hashing ▸ hhashing)).of_extends hb.wellFormed hl hr hgrows.extends
  obtain ⟨hreachable, hgrows, hsettled⟩ := hcalls.performed.settled hnew hkeep hsourced hb hleaves
  have hshares : outcome.target.hashing = true := (Builder.GrowsTo.hashing hgrows).trans hhashing
  have hwf : outcome.target.WellFormed := Builder.Reachable.wellFormed hreachable
  have hrepeats : ∀ call ∈ calls, call.Repeats b₀.Repeats := by
    intro call hcall b₁ hb₁
    obtain ⟨hl, hr, -, hstands⟩ := hsettled call hcall
    exact hb₁.request? hb₀.wellFormed (hext.has hl) (hext.has hr)
      ((hstands hshares).of_extends hwf hl hr hext)
  exact query_replay hcalls hrepeats (.start hb₀.fed (hext.hashing.trans hshares))

/-- A query that is made again, whatever its target has been used for since, offers the same
signals. An XAG is then left as it is, even if the leaves are no signals of it. A builder that
shares gates may get nodes that no gate refers to. -/
theorem query_idempotent {verbose : Bool} {words : List UInt32} {e : Engine}
    (h : ofWords verbose words = .ok e) (function : Table) (leaves : List Signal)
    (accept : List Signal → Bool) :
    (∀ g : Xag, ∃ outcome, e.query function leaves accept g = .ok outcome ∧
      ∀ g', outcome.target.LeadsTo g' →
        e.query function leaves accept g' = .ok ⟨outcome.offers, g'⟩) ∧
    (∀ b : Builder, b.Reachable → b.hashing = true → (∀ s ∈ leaves, b.Has s) →
      ∃ outcome, e.query function leaves accept b = .ok outcome ∧
        ∀ b', outcome.target.LeadsTo b' →
          ∃ b'', e.query function leaves accept b' = .ok ⟨outcome.offers, b''⟩ ∧
            b'.GrowsTo b'' ∧ (∀ s ∈ outcome.offers, b'.Has s) ∧
            ∀ (n : Nat) (x y : Signal), b''.netlist.nodes[n]? = some (.and x y) →
              b'.Has x ∧ b'.Has y) := by
  have hengine := wellFormed_of_ofWords h
  constructor
  · intro g
    obtain ⟨outcome, hquery⟩ := hengine.query_answered Xag.answering function leaves accept g
    exact ⟨outcome, hquery, fun g' hleads => query_again hquery hleads.knownIn⟩
  · intro b hb hhashing hleaves
    obtain ⟨outcome, hquery, hsound⟩ : ∃ outcome, e.query function leaves accept b = .ok outcome ∧
        outcome.Sound function leaves b := hengine.query_ok hb hleaves function accept
    refine ⟨outcome, hquery, fun b' hleads => ?_⟩
    obtain ⟨hb', hext⟩ := hleads.keeps hsound.reachable
    obtain ⟨b'', hagain, hrepeats⟩ :=
      hengine.query_repeats hb hhashing hleaves hquery hb' hext
    exact ⟨b'', hagain, hrepeats.grows, fun s hs => hext.has (hsound.has s hs), hrepeats.operands⟩

/-- Both circuits are queried twice, and an input is added in between. The second query adds no gate
to the graph. -/
theorem query_idempotent_two_circuits :
    ∃ index, ofWords false ClassIndex.twoCircuits.toWords = .ok (ofTwoCircuits index) ∧
      (∃ outcome, (ofTwoCircuits index).query (.ofTable4 ClassIndex.nor) twoLeaves (fun _ => true)
          Xag.empty.addInput.2.addInput.2 = .ok outcome ∧
        outcome.offers = [⟨3, false⟩, ⟨6, false⟩] ∧ outcome.target.size = 7 ∧
        (ofTwoCircuits index).query (.ofTable4 ClassIndex.nor) twoLeaves (fun _ => true)
          outcome.target.addInput.2 = .ok ⟨[⟨3, false⟩, ⟨6, false⟩], outcome.target.addInput.2⟩) ∧
      ∃ outcome b'', (ofTwoCircuits index).query (.ofTable4 ClassIndex.nor) twoLeaves
          (fun _ => true) (((Builder.new "target" false true).addInput "x").2.addInput "y").2 =
            .ok outcome ∧
        outcome.offers.length = 2 ∧
        (ofTwoCircuits index).query (.ofTable4 ClassIndex.nor) twoLeaves (fun _ => true)
          (outcome.target.addInput "z").2 = .ok ⟨outcome.offers, b''⟩ := by
  obtain ⟨index, he, hget⟩ := exists_ofWords_two_circuits
  obtain ⟨hxag, hbuilder⟩ :=
    query_idempotent he (.ofTable4 ClassIndex.nor) twoLeaves fun _ => true
  refine ⟨index, he, ?_, ?_⟩
  · obtain ⟨outcome, hquery, hagain⟩ := hxag Xag.empty.addInput.2.addInput.2
    obtain ⟨hoffers, hnodes⟩ := outcome_two_circuits hget hquery
    have hsize : outcome.target.size = 7 := congrArg Array.size hnodes
    exact ⟨outcome, hquery, hoffers, hsize, hoffers ▸ hagain _ (.single (.addInput _))⟩
  · obtain ⟨outcome, hquery, hagain⟩ :=
      hbuilder _ (.addInput (.addInput (.new "target" false true) "x") "y") rfl
        (by simp [twoLeaves, Builder.Has, Builder.new, Builder.addInput])
    obtain ⟨b'', hsecond, -⟩ := hagain _ (.single (.addInput _ "z"))
    have hlength := ((wellFormed_of_ofWords he).query_enumerated
      (Table.toTable4?_ofTable4 ClassIndex.nor) hquery).length
    rw [candidates_nor hget] at hlength
    exact ⟨outcome, b'', hquery, hlength, hsecond⟩

end Engine
end LogicResynthesis
