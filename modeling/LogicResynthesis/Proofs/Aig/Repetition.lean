import LogicResynthesis.Proofs.Aig.Sharing

/-!
# Gates that are asked for again

In a builder that shares gates one signal stands for a conjunction or exclusive
or, whatever its operands are, and for good. So what is asked for again is
answered as before. The gates that this takes are over signals that were there,
and nothing refers to them.
-/

namespace LogicResynthesis
namespace Aig
namespace Builder

variable {b b' b₀ : Builder} {x y r r' : Signal}

/-- The signal `r` stands for the conjunction of `x` and `y`: it is folded to `r`, or it is not
folded and `r` is the original of the structure of a gate over them. -/
inductive StandsForAnd (b : Builder) (x y r : Signal) : Prop
  | folded (hfolding : b.folding = true)
      (hfold : foldAnd? b.netlist.nodes x y = .ok (some r)) : StandsForAnd b x y r
  | gate {n k : Nat} (hfold : b.folding = true → foldAnd? b.netlist.nodes x y = .ok none)
      (hr : r = .ofNode k) (hn : b.netlist.nodes[n]? = some (.and x y))
      (horiginal : Original b.netlist.nodes k) (hsame : SameStructure b.netlist.nodes k n) :
      StandsForAnd b x y r

/-- The signal `r` stands for the exclusive or of `x` and `y`. -/
inductive StandsForXor (b : Builder) (x y r : Signal) : Prop
  | folded (hfolding : b.folding = true) (hfold : foldXor? x y = some r) : StandsForXor b x y r
  | gates {s t : Signal} (hfold : b.folding = true → foldXor? x y = none)
      (hs : StandsForAnd b x y.complement s) (ht : StandsForAnd b x.complement y t)
      (hr : StandsForAnd b s.complement t.complement r.complement) : StandsForXor b x y r

namespace StandsForAnd

theorem has (h : b.StandsForAnd x y r) (hwf : b.WellFormed) (hx : b.Has x) (hy : b.Has y) :
    b.Has r := by
  cases h with
  | folded _ hfold =>
    rcases eq_of_foldAnd? hfold with rfl | rfl | rfl
    · exact has_constant hwf false
    · exact hx
    · exact hy
  | gate _ hr _ horiginal _ =>
    rw [hr]
    exact horiginal.lt_size

theorem of_extends (h : b.StandsForAnd x y r) (hwf : b.WellFormed) (hx : b.Has x) (hy : b.Has y)
    (hext : b.Extends b') : b'.StandsForAnd x y r := by
  have hfolds := foldAnd?_grown hext.nodes hx hy
  cases h with
  | folded hfolding hfold => exact .folded (hext.folding.trans hfolding) (hfolds.trans hfold)
  | gate hfold hr hn horiginal hsame =>
    exact .gate (fun hfolding => hfolds.trans (hfold (hext.folding ▸ hfolding))) hr
      (getElem?_of_grown hext.nodes hn) (horiginal.of_grown hwf.closed.ordered hext.nodes)
      (hsame.of_grown hext.nodes)

theorem unique (h : b.StandsForAnd x y r) (h' : b.StandsForAnd x y r') (hwf : b.WellFormed) :
    r = r' := by
  cases h with
  | folded hfolding hfold =>
    cases h' with
    | folded _ hfold' => exact Option.some.inj (Except.ok.inj (hfold.symm.trans hfold'))
    | gate hfold' _ _ _ _ => cases Except.ok.inj (hfold.symm.trans (hfold' hfolding))
  | @gate n k hfold hr hn horiginal hsame =>
    cases h' with
    | folded hfolding hfold' => cases Except.ok.inj (hfold'.symm.trans (hfold hfolding))
    | @gate n' k' _ hr' hn' horiginal' hsame' =>
      have hand : IsAndOf b.netlist.nodes n x y := .inl hn
      have hgates := hand.sameStructure hwf.closed.ordered (.inl hn')
      have horiginals := (hsame.trans hgates).trans hsame'.symm
      rw [hr, hr', horiginal.eq_of_sameStructure horiginal' horiginals]

end StandsForAnd

theorem StandsForXor.of_extends (h : b.StandsForXor x y r) (hwf : b.WellFormed) (hx : b.Has x)
    (hy : b.Has y) (hext : b.Extends b') : b'.StandsForXor x y r := by
  cases h with
  | folded hfolding hfold => exact .folded (hext.folding.trans hfolding) hfold
  | gates hfold hs ht hr =>
    have hass := hs.has hwf hx (has_complement hy)
    have hast := ht.has hwf (has_complement hx) hy
    exact .gates (fun hfolding => hfold (hext.folding ▸ hfolding))
      (hs.of_extends hwf hx (has_complement hy) hext)
      (ht.of_extends hwf (has_complement hx) hy hext)
      (hr.of_extends hwf (has_complement hass) (has_complement hast) hext)

/-- The builder has been asked for a gate, and `r` stands for it if gates are shared. -/
structure Replies (b : Builder) (StandsFor : Builder → Signal → Prop) (r : Signal) (b' : Builder) :
    Prop where
  fed : b'.Fed
  grows : b.GrowsTo b'
  has : b'.Has r
  stands : b'.hashing = true → StandsFor b' r

namespace Fed

theorem addAnd (h : b.Fed) (hx : b.Has x) (hy : b.Has y) :
    ∃ r b', b.addAnd x y = .ok (r, b') ∧ b.Replies (fun b' r => b'.StandsForAnd x y r) r b' ∧
      (b'.netlist.nodes = b.netlist.nodes ∨
        b'.netlist.nodes = b.netlist.nodes.push (.and x y)) := by
  rcases addAnd_cases h.toWellFormed hx hy with
    ⟨s, hfolding, hs, hadd⟩ | ⟨hfold, hadd⟩ <;> rw [hadd]
  · have hstands : b.StandsForAnd x y s := .folded hfolding hs
    exact ⟨s, b, rfl, ⟨h, GrowsTo.refl b, hstands.has h.toWellFormed hx hy, fun _ => hstands⟩,
      .inl rfl⟩
  · obtain ⟨k, b', hpush, hb⟩ := h.pushAnd hx hy
    have hsame := foldAnd?_grown hb.grows.nodes hx hy
    refine ⟨_, b', hpush, ⟨hb.fed, hb.grows, hb.lt_size, fun hhashing => ?_⟩, .inr hb.nodes⟩
    exact .gate (fun hfolding => hsame.trans (hfold (hb.grows.folding ▸ hfolding))) rfl
      hb.getElem? (hb.original hhashing) (hb.sameStructure hhashing)

theorem addOr (h : b.Fed) (hx : b.Has x) (hy : b.Has y) :
    ∃ r b', b.addOr x y = .ok (r, b') ∧
      b.Replies (fun b' r => b'.StandsForAnd x.complement y.complement r.complement) r b' := by
  obtain ⟨s, b', hadd, hb, -⟩ := h.addAnd (has_complement hx) (has_complement hy)
  refine ⟨s.complement, b', addOr_eq hadd, hb.fed, hb.grows, has_complement hb.has, ?_⟩
  rw [Signal.complement_complement]
  exact hb.stands

theorem expandXor (h : b.Fed) (hx : b.Has x) (hy : b.Has y)
    (hfold : b.folding = true → foldXor? x y = none) :
    ∃ r b', b.expandXor x y = .ok (r, b') ∧
      b.Replies (fun b' r => b'.StandsForXor x y r) r b' := by
  obtain ⟨s, b₁, hadd₁, hb₁, -⟩ := h.addAnd hx (has_complement hy)
  have hx₁ := hb₁.grows.has hx
  have hy₁ := hb₁.grows.has hy
  obtain ⟨t, b₂, hadd₂, hb₂, -⟩ := hb₁.fed.addAnd (has_complement hx₁) hy₁
  have hs₂ := hb₂.grows.has hb₁.has
  obtain ⟨r, b₃, hadd₃, hb₃⟩ := hb₂.fed.addOr hs₂ hb₂.has
  have hgrows := (hb₁.grows.trans hb₂.grows).trans hb₃.grows
  have hexpand := (expandXor_eq hadd₁ hadd₂).trans hadd₃
  refine ⟨r, b₃, hexpand, hb₃.fed, hgrows, hb₃.has, fun hhashing => ?_⟩
  have hhashing₂ : b₂.hashing = true := hb₃.grows.hashing ▸ hhashing
  have hhashing₁ : b₁.hashing = true := hb₂.grows.hashing ▸ hhashing₂
  exact .gates (fun hfolding => hfold (hgrows.folding ▸ hfolding))
    ((hb₁.stands hhashing₁).of_extends hb₁.fed.toWellFormed hx₁ (has_complement hy₁)
      (hb₂.grows.trans hb₃.grows).extends)
    ((hb₂.stands hhashing₂).of_extends hb₂.fed.toWellFormed (has_complement (hb₂.grows.has hx₁))
      (hb₂.grows.has hy₁) hb₃.grows.extends)
    (hb₃.stands hhashing)

theorem addXor (h : b.Fed) (hx : b.Has x) (hy : b.Has y) :
    ∃ r b', b.addXor x y = .ok (r, b') ∧
      b.Replies (fun b' r => b'.StandsForXor x y r) r b' := by
  rcases addXor_cases b x y with ⟨s, hfolding, hfold, hadd⟩ | ⟨hfold, hadd⟩ <;> rw [hadd]
  · exact ⟨s, b, rfl, h, GrowsTo.refl b, (foldXor?_spec h.toWellFormed hx hy hfold).1,
      fun _ => .folded hfolding hfold⟩
  · exact h.expandXor hx hy hfold

end Fed

theorem Reachable.fed (h : b.Reachable) : b.Fed := by
  induction h with
  | new name folding hashing => exact .new name folding hashing
  | addInput _ name ih => exact ih.addInput name
  | addOutput _ hx name ih => exact ih.addOutput name hx
  | addAnd _ hx hy hadd ih =>
    obtain ⟨s, b', hadd', hb, -⟩ := ih.addAnd hx hy
    obtain ⟨-, rfl⟩ := Prod.mk.inj (Except.ok.inj (hadd.symm.trans hadd'))
    exact hb.fed
  | addOr _ hx hy hadd ih =>
    obtain ⟨s, b', hadd', hb⟩ := ih.addOr hx hy
    obtain ⟨-, rfl⟩ := Prod.mk.inj (Except.ok.inj (hadd.symm.trans hadd'))
    exact hb.fed
  | addXor _ hx hy hadd ih =>
    obtain ⟨s, b', hadd', hb⟩ := ih.addXor hx hy
    obtain ⟨-, rfl⟩ := Prod.mk.inj (Except.ok.inj (hadd.symm.trans hadd'))
    exact hb.fed
  | depth? _ hx hdepth ih => exact (ih.depth? hx hdepth).1

/-- A builder that shares gates has grown from the first one by gates over its signals only. -/
structure Repeats (b₀ b : Builder) : Prop where
  fed : b.Fed
  hashing : b.hashing = true
  grows : b₀.GrowsTo b
  operands : ∀ (n : Nat) (x y : Signal), b.netlist.nodes[n]? = some (.and x y) →
    b₀.Has x ∧ b₀.Has y

namespace Repeats

theorem start (h : b.Fed) (hhashing : b.hashing = true) : b.Repeats b where
  fed := h
  hashing := hhashing
  grows := GrowsTo.refl b
  operands n x y hn := by
    have hlt := (Array.getElem?_eq_some_iff.mp hn).1
    obtain ⟨hx, hy⟩ := h.closed.ordered.operands_lt hn
    exact ⟨Nat.lt_trans hx hlt, Nat.lt_trans hy hlt⟩

section

variable (h : b₀.Repeats b) (hwf : b₀.WellFormed) (hx : b₀.Has x) (hy : b₀.Has y)

include h hwf hx hy

theorem addAnd (hr : b₀.StandsForAnd x y r) :
    ∃ b', b.addAnd x y = .ok (r, b') ∧ b₀.Repeats b' := by
  obtain ⟨r', b', hadd, hb, hnodes⟩ := h.fed.addAnd (h.grows.has hx) (h.grows.has hy)
  have hgrows := h.grows.trans hb.grows
  have hhashing : b'.hashing = true := hb.grows.hashing.trans h.hashing
  obtain rfl : r = r' :=
    (hr.of_extends hwf hx hy hgrows.extends).unique (hb.stands hhashing) hb.fed.toWellFormed
  refine ⟨b', hadd, hb.fed, hhashing, hgrows, fun n u v hn => ?_⟩
  rcases hnodes with hnodes | hnodes <;> rw [hnodes] at hn
  · exact h.operands n u v hn
  · rcases getElem?_push_or hn with hn | ⟨-, hn⟩
    · exact h.operands n u v hn
    · obtain ⟨rfl, rfl⟩ := Node.and.inj hn
      exact ⟨hx, hy⟩

theorem addXor (hr : b₀.StandsForXor x y r) :
    ∃ b', b.addXor x y = .ok (r, b') ∧ b₀.Repeats b' := by
  cases hr with
  | folded hfolding hfold =>
    refine ⟨b, ?_, h⟩
    unfold Builder.addXor
    rw [if_pos (h.grows.folding.trans hfolding), hfold]
  | @gates s t hfold hs ht hr =>
    have hass := hs.has hwf hx (has_complement hy)
    have hast := ht.has hwf (has_complement hx) hy
    obtain ⟨b₁, hadd₁, h₁⟩ := h.addAnd hwf hx (has_complement hy) hs
    obtain ⟨b₂, hadd₂, h₂⟩ := h₁.addAnd hwf (has_complement hx) hy ht
    obtain ⟨b₃, hadd₃, h₃⟩ := h₂.addAnd hwf (has_complement hass) (has_complement hast) hr
    have hexpand : b.expandXor x y = .ok (r, b₃) := by
      rw [expandXor_eq hadd₁ hadd₂, addOr_eq hadd₃, Signal.complement_complement]
    refine ⟨b₃, ?_, h₃⟩
    rcases addXor_cases b x y with ⟨_, hfolding, hfold', -⟩ | ⟨-, hadd⟩
    · rw [hfold (h.grows.folding ▸ hfolding)] at hfold'
      cases hfold'
    · exact hadd.trans hexpand

end

end Repeats

end Builder
end Aig
end LogicResynthesis
