import LogicResynthesis.Proofs.Aig.Builder
import LogicResynthesis.Proofs.Aig.DigestHash

/-!
# Builders that hash by digests

What a builder does with its hash while the netlist grows is a run of events: an
input comes to the list, a gate comes to the list and is fed, or a node is
summarized for its depth. So a hash by digests would serve a builder just as
well, as long as messages do not collide.
-/

namespace LogicResynthesis
namespace Aig

theorem Ordered.acyclic {nodes : Array Node} (h : Ordered nodes) : Acyclic nodes where
  operands_lt n a b hn := by
    obtain ⟨ha, hb⟩ := h.operands_lt hn
    have hlt := (Array.getElem?_eq_some_iff.mp hn).1
    exact ⟨Nat.lt_trans ha hlt, Nat.lt_trans hb hlt⟩
  acyclic := by
    have hlower : ∀ n, ∀ m ∈ faninsOf nodes n, id m < id n := by
      intro n m hm
      obtain ⟨a, b, hn, rfl | rfl⟩ := mem_faninsOf.mp hm
      · exact (h.operands_lt hn).1
      · exact (h.operands_lt hn).2
    exact Dag.acyclic_of_rank hlower

namespace DigestHash

variable {nodes : Array Node} {events events' : List Event}

theorem grown_append : grown nodes (events ++ events') = grown (grown nodes events) events' := by
  induction events generalizing nodes with
  | nil => rfl
  | cons e events ih => cases e <;> exact ih

theorem Legal.append (h : Legal nodes events) (h' : Legal (grown nodes events) events') :
    Legal nodes (events ++ events') := by
  induction events generalizing nodes with
  | nil => exact h'
  | cons e events ih =>
    cases e with
    | node v => exact ih h h'
    | request q =>
      obtain ⟨hacyclic, hq, h⟩ := h
      exact ⟨hacyclic, hq, ih h h'⟩

end DigestHash

namespace Builder

open DigestHash (Event Legal grown)
open StructuralHash (Dialogue)

/-- Events have led from the first builder to the second, whatever its hash had replied before. -/
structure Hashes (b b' : Builder) : Prop where
  hashing : b'.hashing = b.hashing
  run : ∀ h, b.hash = some h → ∃ events h', Legal b.netlist.nodes events ∧
    b'.netlist.nodes = grown b.netlist.nodes events ∧ b'.hash = some h' ∧
    ∀ replies, ∃ replies', events.foldlM (Event.apply Dialogue.ask)
      (b.netlist.nodes, ⟨h, replies⟩) = .ok (b'.netlist.nodes, ⟨h', replies'⟩)

variable {b b' b'' : Builder} {x y s : Signal}

theorem Hashes.of_eq (hhash : b'.hash = b.hash) (hnodes : b'.netlist.nodes = b.netlist.nodes) :
    b.Hashes b' where
  hashing := congrArg Option.isSome hhash
  run h hh := by
    refine ⟨[], h, trivial, hnodes, hhash.trans hh, fun replies => ⟨replies, ?_⟩⟩
    rw [hnodes]
    rfl

theorem Hashes.trans (H : b.Hashes b') (H' : b'.Hashes b'') : b.Hashes b'' where
  hashing := H'.hashing.trans H.hashing
  run h hh := by
    obtain ⟨events, h', hlegal, hnodes, hh', hrun⟩ := H.run h hh
    obtain ⟨events', h'', hlegal', hnodes', hh'', hrun'⟩ := H'.run h' hh'
    rw [hnodes] at hlegal' hnodes'
    refine ⟨events ++ events', h'', hlegal.append hlegal', ?_, hh'', fun replies => ?_⟩
    · rw [hnodes', DigestHash.grown_append]
    · obtain ⟨replies', hreplies⟩ := hrun replies
      obtain ⟨replies'', hreplies'⟩ := hrun' replies'
      refine ⟨replies'', ?_⟩
      rw [List.foldlM_append, hreplies]
      exact hreplies'

theorem addInput_hashes (b : Builder) (name : String) : b.Hashes (b.addInput name).2 where
  hashing := rfl
  run h hh := ⟨[.node (.input name)], h, trivial, rfl, hh, fun replies => ⟨replies, rfl⟩⟩

theorem pushAnd_hashes (h : b.WellFormed) (hx : b.Has x) (hy : b.Has y)
    (hpush : b.pushAnd x y = .ok (s, b')) : b.Hashes b' := by
  have hacyclic := (ordered_withAnd h.closed.ordered hx hy).acyclic
  obtain ⟨netlist, folding, hash⟩ := b
  cases hash with
  | none =>
    obtain ⟨-, rfl⟩ := Prod.mk.inj (Except.ok.inj hpush)
    exact ⟨rfl, by simp⟩
  | some hash =>
    have hlt : netlist.nodes.size < (netlist.nodes.push (.and x y)).size := by simp
    cases hfeed : hash.feed (netlist.nodes.push (.and x y)) netlist.nodes.size with
    | error f => simp [pushAnd, hfeed] at hpush
    | ok r =>
      rw [pushAnd_of_feed hfeed] at hpush
      obtain ⟨-, rfl⟩ := Prod.mk.inj (Except.ok.inj hpush)
      refine ⟨rfl, ?_⟩
      rintro _ ⟨⟩
      refine ⟨[.node (.and x y), .request (.feed netlist.nodes.size)], r.2,
        ⟨hacyclic, hlt, trivial⟩, rfl, rfl, fun replies => ⟨replies ++ [.known r.1], ?_⟩⟩
      simp only [List.foldlM_cons, Event.apply, bind, Except.bind, Dialogue.ask, hfeed]
      rfl

theorem addAnd_hashes (h : b.WellFormed) (hx : b.Has x) (hy : b.Has y)
    (hadd : b.addAnd x y = .ok (s, b')) : b.Hashes b' := by
  rcases addAnd_cases h hx hy with ⟨_, -, -, hfolded⟩ | ⟨-, hpushed⟩
  · obtain ⟨-, rfl⟩ := Prod.mk.inj (Except.ok.inj (hfolded.symm.trans hadd))
    exact .of_eq rfl rfl
  · exact pushAnd_hashes h hx hy (hpushed.symm.trans hadd)

theorem addOr_hashes (h : b.WellFormed) (hx : b.Has x) (hy : b.Has y)
    (hadd : b.addOr x y = .ok (s, b')) : b.Hashes b' := by
  obtain ⟨_, b₁, hadd₁, -⟩ := addAnd_answers h (has_complement hx) (has_complement hy)
  obtain ⟨-, rfl⟩ := Prod.mk.inj (Except.ok.inj ((addOr_eq hadd₁).symm.trans hadd))
  exact addAnd_hashes h (has_complement hx) (has_complement hy) hadd₁

theorem expandXor_hashes (h : b.WellFormed) (hx : b.Has x) (hy : b.Has y)
    (hadd : b.expandXor x y = .ok (s, b')) : b.Hashes b' := by
  obtain ⟨l, b₁, hl, h₁, hgrows₁, hasl, -⟩ := addAnd_answers h hx (has_complement hy)
  have hx₁ := has_complement (hgrows₁.has hx)
  have hy₁ := hgrows₁.has hy
  obtain ⟨r, b₂, hr, h₂, hgrows₂, hasr, -⟩ := addAnd_answers h₁ hx₁ hy₁
  rw [expandXor_eq hl hr] at hadd
  exact ((addAnd_hashes h hx (has_complement hy) hl).trans (addAnd_hashes h₁ hx₁ hy₁ hr)).trans
    (addOr_hashes h₂ (hgrows₂.has hasl) hasr hadd)

theorem addXor_hashes (h : b.WellFormed) (hx : b.Has x) (hy : b.Has y)
    (hadd : b.addXor x y = .ok (s, b')) : b.Hashes b' := by
  rcases addXor_cases b x y with ⟨_, -, -, hfolded⟩ | ⟨-, hexpanded⟩
  · obtain ⟨-, rfl⟩ := Prod.mk.inj (Except.ok.inj (hfolded.symm.trans hadd))
    exact .of_eq rfl rfl
  · exact expandXor_hashes h hx hy (hexpanded.symm.trans hadd)

theorem depth?_hashes (h : b.WellFormed) (hx : b.Has x) {depth : Nat}
    (hdepth : b.depth? x = .ok (some (depth, b'))) : b.Hashes b' := by
  obtain ⟨netlist, folding, hash⟩ := b
  cases hash with
  | none => cases hdepth
  | some hash =>
    obtain ⟨r, hsum, hr⟩ := map_eq_ok.mp hdepth
    obtain ⟨-, rfl⟩ := Prod.mk.inj (Option.some.inj hr)
    refine ⟨rfl, ?_⟩
    rintro _ ⟨⟩
    refine ⟨[.request (.summarize x.node)], r.2, ⟨h.closed.ordered.acyclic, hx, trivial⟩, rfl, rfl,
      fun replies => ⟨replies ++ [.summary r.1], ?_⟩⟩
    have hsum' : hash.summarize netlist.nodes x.node = .ok r := hsum
    simp only [List.foldlM_cons, Event.apply, bind, Except.bind, Dialogue.ask, hsum']
    rfl

/-- A builder of no nodes, not even the constant. -/
def bare : Builder := ⟨⟨"", #[], #[], #[]⟩, false, some .empty⟩

theorem Reachable.hashes (h : b.Reachable) (hhashing : b.hashing = true) : bare.Hashes b := by
  induction h with
  | new name folding hashing =>
    cases hashing with
    | false => cases hhashing
    | true =>
      refine ⟨rfl, ?_⟩
      rintro _ ⟨⟩
      exact ⟨[.node (.literal false)], .empty, trivial, rfl, rfl, fun replies => ⟨replies, rfl⟩⟩
  | addInput _ name ih => exact (ih hhashing).trans (addInput_hashes _ name)
  | addOutput _ _ name ih => exact (ih hhashing).trans (.of_eq rfl rfl)
  | addAnd h hx hy hadd ih =>
    have H := addAnd_hashes h.wellFormed hx hy hadd
    exact (ih (H.hashing.symm.trans hhashing)).trans H
  | addOr h hx hy hadd ih =>
    have H := addOr_hashes h.wellFormed hx hy hadd
    exact (ih (H.hashing.symm.trans hhashing)).trans H
  | addXor h hx hy hadd ih =>
    have H := addXor_hashes h.wellFormed hx hy hadd
    exact (ih (H.hashing.symm.trans hhashing)).trans H
  | depth? h hx hdepth ih =>
    have H := depth?_hashes h.wellFormed hx hdepth
    exact (ih (H.hashing.symm.trans hhashing)).trans H

/-- The events that have led to a builder, with its hash by classes, lead a hash by digests to
replies that are the same but for names, and to a state from which it goes on like the other. -/
theorem Reachable.digests_refine (h : b.Reachable) {classes : StructuralHash}
    (hclasses : b.hash = some classes) {hash : List UInt8 → Digest}
    (hfree : CollisionFree hash b.netlist.nodes) (hsize : b.netlist.nodes.size ≤ 2 ^ 64) :
    ∃ (events : List Event) (D : Dialogue) (E : DigestHash × List DigestHash.Reply),
      events.foldlM (Event.apply Dialogue.ask) (#[], .start) = .ok (b.netlist.nodes, D) ∧
      D.hash = classes ∧
      events.foldlM (Event.apply (DigestHash.ask hash)) (#[], (.empty, [])) =
        .ok (b.netlist.nodes, E) ∧
      DigestHash.Refines hash b.netlist.nodes classes E.1 ∧
      DigestHash.Renamed D.replies E.2 := by
  obtain ⟨events, h', hlegal, hnodes, hh', hrun⟩ :=
    (h.hashes (by rw [hashing, hclasses]; rfl)).run .empty rfl
  obtain rfl := Option.some.inj (hclasses.symm.trans hh')
  obtain ⟨replies, hreplies⟩ := hrun []
  rw [hnodes] at hfree hsize hreplies ⊢
  obtain ⟨D, E, hD, hE, R, hrenamed⟩ := DigestHash.replies_renamed hlegal hfree hsize
  obtain ⟨-, rfl⟩ := Prod.mk.inj (Except.ok.inj (hreplies.symm.trans hD))
  exact ⟨events, _, E, hD, rfl, hE, R, hrenamed⟩

end Builder
end Aig
end LogicResynthesis
