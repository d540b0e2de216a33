import LogicResynthesis.Proofs.Aig.Builder

/-!
# What is folded

A conjunction that is folded is `false` or one of its operands, an exclusive or
is one of its operands or the complement. Neither the order of the operands nor
nodes that are added later make a difference.
-/

namespace LogicResynthesis
namespace Aig
namespace Builder

variable {nodes nodes' : Array Node} {x y s t : Signal}

theorem asOr?_grown (hgrown : nodes.toList <+: nodes'.toList) (hs : s.node < nodes.size) :
    asOr? nodes' s = asOr? nodes s := by
  have hnode : nodes[s.node]? = some nodes[s.node] := Array.getElem?_eq_getElem hs
  unfold asOr?
  rw [node?_eq hnode, node?_eq (getElem?_of_grown hgrown hnode)]

theorem foldAnd?_grown (hgrown : nodes.toList <+: nodes'.toList) (hx : x.node < nodes.size)
    (hy : y.node < nodes.size) : foldAnd? nodes' x y = foldAnd? nodes x y := by
  unfold foldAnd? absorbs?
  rw [asOr?_grown hgrown hx, asOr?_grown hgrown hy]

theorem node_of_absorbs? (h : absorbs? nodes s t = .ok true) :
    ∃ a b, nodes[s.node]? = some (.and a b) ∧ (a.complement = t ∨ b.complement = t) := by
  unfold absorbs? asOr? at h
  by_cases hneg : s.negated = true
  · rw [if_pos hneg] at h
    unfold node? at h
    cases hnode : nodes[s.node]? with
    | none => simp [hnode, bind, Except.bind, Except.map] at h
    | some node =>
      cases node with
      | literal v => simp [hnode, bind, Except.bind, Except.map, pure, Except.pure] at h
      | input name => simp [hnode, bind, Except.bind, Except.map, pure, Except.pure] at h
      | and a b =>
        simp [hnode, bind, Except.bind, Except.map, pure, Except.pure] at h
        exact ⟨a, b, rfl, h⟩
  · rw [if_neg hneg] at h
    cases Except.ok.inj h

theorem lt_of_absorbs? (hordered : Ordered nodes) (h : absorbs? nodes s t = .ok true) :
    t.node < s.node := by
  obtain ⟨a, b, hnode, rfl | rfl⟩ := node_of_absorbs? h
  · exact (hordered.operands_lt hnode).1
  · exact (hordered.operands_lt hnode).2

/-- The operands of a conjunction can be exchanged: they do not absorb each other. -/
theorem foldAnd?_comm (hordered : Ordered nodes) (hx : x.node < nodes.size)
    (hy : y.node < nodes.size) : foldAnd? nodes x y = foldAnd? nodes y x := by
  obtain ⟨p, hp, -⟩ := absorbs?_spec hordered hx y
  obtain ⟨q, hq, -⟩ := absorbs?_spec hordered hy x
  have hnot : ¬(p = true ∧ q = true) := by
    rintro ⟨rfl, rfl⟩
    exact Nat.lt_asymm (lt_of_absorbs? hordered hp) (lt_of_absorbs? hordered hq)
  have habsorb : (do
      if ← absorbs? nodes x y then return some y
      if ← absorbs? nodes y x then return some x
      return none : Except Fault (Option Signal)) = do
      if ← absorbs? nodes y x then return some x
      if ← absorbs? nodes x y then return some y
      return none := by
    rw [hp, hq]
    cases p with
    | false => cases q <;> rfl
    | true =>
      cases q with
      | false => rfl
      | true => exact absurd ⟨rfl, rfl⟩ hnot
  have hopposite : x = y.complement ↔ y = x.complement := by
    constructor <;> rintro rfl <;> simp
  have htrue := Signal.eq_constant_of_isTrue (s := x)
  have htrue' := Signal.eq_constant_of_isTrue (s := y)
  unfold foldAnd?
  rw [habsorb]
  grind

theorem eq_of_foldAnd? (h : foldAnd? nodes x y = .ok (some s)) :
    s = .constant false ∨ s = x ∨ s = y := by
  unfold foldAnd? at h
  split_ifs at h
  · exact .inl (Option.some.inj (Except.ok.inj h)).symm
  · exact .inr (.inr (Option.some.inj (Except.ok.inj h)).symm)
  · exact .inr (.inl (Option.some.inj (Except.ok.inj h)).symm)
  · exact .inr (.inl (Option.some.inj (Except.ok.inj h)).symm)
  · exact .inl (Option.some.inj (Except.ok.inj h)).symm
  · rw [bind_eq_ok] at h
    obtain ⟨p, -, h⟩ := h
    cases p with
    | true => exact .inr (.inr (Option.some.inj (Except.ok.inj h)).symm)
    | false =>
      change (absorbs? nodes y x >>= fun q => _) = _ at h
      rw [bind_eq_ok] at h
      obtain ⟨q, -, h⟩ := h
      cases q with
      | true => exact .inr (.inl (Option.some.inj (Except.ok.inj h)).symm)
      | false => cases Except.ok.inj h

theorem node_of_foldXor? (h : foldXor? x y = some s) : s.node = x.node ∨ s.node = y.node := by
  unfold foldXor? at h
  split_ifs at h <;> obtain rfl := Option.some.inj h
  · exact .inr rfl
  · exact .inl rfl
  · exact .inr rfl
  · exact .inl rfl

theorem foldXor?_comm (x y : Signal) : foldXor? x y = foldXor? y x := by
  have hfalse := Signal.eq_constant_of_isFalse (s := x)
  have hfalse' := Signal.eq_constant_of_isFalse (s := y)
  have htrue := Signal.eq_constant_of_isTrue (s := x)
  have htrue' := Signal.eq_constant_of_isTrue (s := y)
  unfold foldXor?
  grind

end Builder
end Aig
end LogicResynthesis
