import LogicResynthesis.Proofs.Aig.Builder
import LogicResynthesis.Proofs.Aig.Originals

/-!
# The gates that a hash was fed

The hash of a builder has been fed the gates of the netlist, each once and in
order, whatever operations led there. So if gates are shared, a new one is
answered by the original of its structure.
-/

namespace LogicResynthesis
namespace Aig
namespace Builder

variable {b b' : Builder} {x y : Signal}

/-- If there is a hash, it has been fed every gate. -/
structure Fed (b : Builder) : Prop extends b.WellFormed where
  remembers : ∀ h, b.hash = some h → h.Remembers b.netlist.nodes (gateNodes b.netlist.nodes)

/-- A gate over `x` and `y` has been built at the end, and node `k` answers for it: the gate itself,
or the original of its structure if gates are shared. -/
structure FeedsGate (b : Builder) (x y : Signal) (k : Nat) (b' : Builder) : Prop where
  fed : b'.Fed
  grows : b.GrowsTo b'
  nodes : b'.netlist.nodes = b.netlist.nodes.push (.and x y)
  lt_size : k < b'.netlist.nodes.size
  own : b'.hashing = false → k = b.netlist.nodes.size
  original : b'.hashing = true → Original b'.netlist.nodes k
  sameStructure : b'.hashing = true → SameStructure b'.netlist.nodes k b.netlist.nodes.size

theorem FeedsGate.getElem? {k : Nat} (h : b.FeedsGate x y k b') :
    b'.netlist.nodes[b.netlist.nodes.size]? = some (.and x y) := by
  rw [h.nodes]
  exact Array.getElem?_push_size

namespace Fed

theorem new (name : String) (folding hashing : Bool) : (new name folding hashing).Fed where
  toWellFormed := wellFormed_new name folding hashing
  remembers h hh := by
    cases hashing with
    | false => cases hh
    | true =>
      obtain rfl := Option.some.inj hh
      exact StructuralHash.remembers_empty _

theorem addInput (h : b.Fed) (name : String) : (b.addInput name).2.Fed where
  toWellFormed := wellFormed_addInput b name h.toWellFormed
  remembers hash hh := by
    have hgates : gateNodes (b.addInput name).2.netlist.nodes = gateNodes b.netlist.nodes := by
      simp [Builder.addInput, gateNodes_push, Node.isAnd]
    rw [hgates]
    exact (h.remembers hash hh).push _

theorem addOutput (h : b.Fed) (name : String) (hx : b.Has x) : (b.addOutput name x).Fed :=
  ⟨wellFormed_addOutput b name h.toWellFormed hx, h.remembers⟩

theorem depth? (h : b.Fed) (hx : b.Has x) {depth : Nat}
    (hdepth : b.depth? x = .ok (some (depth, b'))) :
    b'.Fed ∧ b'.netlist = b.netlist ∧ b'.folding = b.folding ∧ b'.hashing = b.hashing := by
  unfold Builder.depth? at hdepth
  cases hhash : b.hash with
  | none =>
    rw [hhash] at hdepth
    cases hdepth
  | some hash =>
    have hr := h.remembers hash hhash
    obtain ⟨m, hash', hsum, hfinds⟩ := hr.consistent.summarize h.closed.ordered.ranked hx
    rw [hhash] at hdepth
    dsimp only [Builder.nodes] at hdepth
    rw [hsum] at hdepth
    obtain ⟨-, rfl⟩ := Prod.mk.inj (Option.some.inj (Except.ok.inj hdepth))
    refine ⟨⟨⟨h.zero, h.closed, ?_⟩, ?_⟩, rfl, rfl, by simp [hashing, hhash]⟩
    · rintro _ ⟨⟩
      exact hfinds.consistent
    · rintro _ ⟨⟩
      exact hr.finds hfinds

theorem withAnd (h : b.Fed) (hx : b.Has x) (hy : b.Has y) {hash : Option StructuralHash}
    (hhash : ∀ h', hash = some h' → h'.Remembers (withAnd b.netlist x y).nodes
      (gateNodes (Builder.withAnd b.netlist x y).nodes)) :
    Fed ⟨Builder.withAnd b.netlist x y, b.folding, hash⟩ :=
  ⟨h.toWellFormed.withAnd hx hy fun h' hh => (hhash h' hh).consistent, hhash⟩

theorem pushAnd (h : b.Fed) (hx : b.Has x) (hy : b.Has y) :
    ∃ k b', b.pushAnd x y = .ok (.ofNode k, b') ∧ b.FeedsGate x y k b' := by
  have hordered := ordered_withAnd h.closed.ordered hx hy
  have hlast : b.netlist.nodes.size < (Builder.withAnd b.netlist x y).nodes.size := by
    rw [size_withAnd]
    exact Nat.lt_succ_self _
  obtain ⟨netlist, folding, hash⟩ := b
  cases hash with
  | none =>
    exact ⟨_, _, rfl, h.withAnd hx hy (by simp), ⟨prefix_withAnd, rfl, rfl, rfl, rfl, rfl⟩, rfl,
      hlast, fun _ => rfl, by simp [hashing], by simp [hashing]⟩
  | some hash =>
    have hr := (h.remembers hash rfl).push (.and x y)
    obtain ⟨m, hash₁, known, hash', hfinds, hfeeds, hfeed⟩ :=
      hr.consistent.feeds hordered.ranked hlast
    obtain ⟨hr', hknown⟩ := hr.feeds hfinds hfeeds
    have hfed : Fed ⟨Builder.withAnd netlist x y, folding, some hash'⟩ := by
      refine h.withAnd hx hy ?_
      rintro _ ⟨⟩
      simpa [Builder.withAnd, gateNodes_push, Node.isAnd] using hr'
    have hgrows : Builder.GrowsTo ⟨netlist, folding, some hash⟩
        ⟨Builder.withAnd netlist x y, folding, some hash'⟩ :=
      ⟨prefix_withAnd, rfl, rfl, rfl, rfl, rfl⟩
    refine ⟨known.getD netlist.nodes.size, _, pushAnd_of_feed hfeed, ?_⟩
    rw [hknown]
    rcases firstAlike_gateNodes netlist.nodes x y with
      ⟨k, hfirst, -, horiginal, hsame⟩ | ⟨hfirst, horiginal⟩ <;> rw [hfirst]
    · exact ⟨hfed, hgrows, rfl, horiginal.lt_size, by simp [hashing], fun _ => horiginal,
        fun _ => hsame⟩
    · exact ⟨hfed, hgrows, rfl, hlast, fun _ => rfl, fun _ => horiginal,
        fun _ => hordered.sameStructure_refl hlast⟩

end Fed

end Builder
end Aig
end LogicResynthesis
