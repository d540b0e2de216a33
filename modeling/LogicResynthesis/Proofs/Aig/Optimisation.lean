import LogicResynthesis.Proofs.Aig.Construction
import LogicResynthesis.Proofs.Aig.LiveGates
import LogicResynthesis.Proofs.Aig.Sharing

/-!
# Folding and sharing make nothing worse

A program is run with options and without them. Every gate below a result of the
first run is the image of a gate below the same result of the second run, and no
result is deeper. The image of a plain gate is the node that the first run
answered the same conjunction with.
-/

namespace LogicResynthesis
namespace Aig

variable {nodes nodes' : Array Node} {image : Nat → Nat} {m n : Nat} {x y u v : Signal}

/-- Each gate below `m` is the image of one below `n`, and `m` is no deeper than `n`. -/
structure Shrinks (image : Nat → Nat) (nodes : Array Node) (m : Nat) (nodes' : Array Node)
    (n : Nat) : Prop where
  gates : ∀ k, GateBelow nodes m k → ∃ j, GateBelow nodes' n j ∧ image j = k
  depth : ∀ p q, HasDepth nodes m p → HasDepth nodes' n q → p ≤ q

namespace Shrinks

theorem of_not_gate (hm : ¬∃ x y, nodes[m]? = some (.and x y)) :
    Shrinks image nodes m nodes' n where
  gates k hk := absurd hk.exists_and hm
  depth p q hp _ := by
    cases hp with
    | literal _ => exact Nat.zero_le q
    | input _ => exact Nat.zero_le q
    | and hn _ _ => exact absurd ⟨_, _, hn⟩ hm

theorem under (h : Shrinks image nodes m nodes' u.node) (hn : IsAndOf nodes' n u v) :
    Shrinks image nodes m nodes' n where
  gates k hk := by
    obtain ⟨j, hj, himage⟩ := h.gates k hk
    exact ⟨j, .of_operand hn hj, himage⟩
  depth p q hp hq := by
    obtain ⟨q₁, q₂, hq₁, -, rfl⟩ := hq.of_isAndOf hn
    have hle := h.depth p q₁ hp hq₁
    omega

theorem gate (hm : IsAndOf nodes m x y) (hn : IsAndOf nodes' n u v) (himage : image n = m)
    (hx : Shrinks image nodes x.node nodes' u.node)
    (hy : Shrinks image nodes y.node nodes' v.node) : Shrinks image nodes m nodes' n where
  gates k hk := by
    rcases hk.cases hm with rfl | hk | hk
    · exact ⟨n, .self hn, himage⟩
    · obtain ⟨j, hj, hjk⟩ := hx.gates k hk
      exact ⟨j, .of_operand hn hj, hjk⟩
    · obtain ⟨j, hj, hjk⟩ := hy.gates k hk
      exact ⟨j, .of_operand hn.swap hj, hjk⟩
  depth p q hp hq := by
    obtain ⟨p₁, p₂, hp₁, hp₂, rfl⟩ := hp.of_isAndOf hm
    obtain ⟨q₁, q₂, hq₁, hq₂, rfl⟩ := hq.of_isAndOf hn
    have hle := hx.depth p₁ q₁ hp₁ hq₁
    have hle' := hy.depth p₂ q₂ hp₂ hq₂
    omega

end Shrinks

theorem Builder.Plain.of_extends {b b' : Builder} (h : b.Plain) (hext : b.Extends b') : b'.Plain :=
  ⟨hext.folding.trans h.folding, hext.hashing.trans h.hashing⟩

theorem Builder.Plain.isAndOf {b : Builder} {r : Signal} (h : b.Plain)
    (hanswer : b.AndAnswer x y r) : IsAndOf b.netlist.nodes r.node x y := by
  cases hanswer with
  | folded hfolding _ => exact absurd hfolding (by simp [h.folding])
  | gate _ hr hk _ => rwa [hr]

/-- Two builders, and the image of each gate of the plain one. -/
structure Pair where
  optimised : Builder
  plain : Builder
  image : Nat → Nat

namespace Pair

variable {p p' p'' : Pair} {s s' t t' : Signal}

structure Sound (p : Pair) : Prop where
  tidy : p.optimised.Tidy
  tidy_plain : p.plain.Tidy
  plain : p.plain.Plain

/-- Both builders have grown, and old gates have kept their images. -/
structure Extends (p p' : Pair) : Prop where
  optimised : p.optimised.Extends p'.optimised
  plain : p.plain.Extends p'.plain
  image : ∀ j < p.plain.netlist.nodes.size, p'.image j = p.image j

/-- There are further nodes only, no further outputs. -/
structure GrowsTo (p p' : Pair) : Prop extends p.Extends p' where
  outputs : p'.optimised.netlist.outputs = p.optimised.netlist.outputs
  outputs_plain : p'.plain.netlist.outputs = p.plain.netlist.outputs

/-- What is below the first signal is the image of what is below the second. -/
structure Mirrors (p : Pair) (s t : Signal) : Prop where
  held : p.optimised.Held s
  held_plain : p.plain.Held t
  shrinks : Shrinks p.image p.optimised.netlist.nodes s.node p.plain.netlist.nodes t.node

theorem GrowsTo.refl (p : Pair) : p.GrowsTo p where
  optimised := .refl _
  plain := .refl _
  image _ _ := rfl
  outputs := rfl
  outputs_plain := rfl

theorem GrowsTo.trans (h : p.GrowsTo p') (h' : p'.GrowsTo p'') : p.GrowsTo p'' where
  optimised := h.optimised.trans h'.optimised
  plain := h.plain.trans h'.plain
  image j hj := by
    have hj' : j < p'.plain.netlist.nodes.size :=
      Nat.lt_of_lt_of_le hj (by simpa using h.plain.nodes.length_le)
    rw [h'.image j hj', h.image j hj]
  outputs := h'.outputs.trans h.outputs
  outputs_plain := h'.outputs_plain.trans h.outputs_plain

namespace Mirrors

theorem complement (h : p.Mirrors s t) : p.Mirrors s.complement t.complement :=
  ⟨h.held.complement, h.held_plain.complement, h.shrinks⟩

theorem of_extends (h : p.Mirrors s t) (hp : p.Sound) (hext : p.Extends p') :
    p'.Mirrors s t where
  held := h.held.of_extends hp.tidy.toWellFormed hext.optimised
  held_plain := h.held_plain.of_extends hp.tidy_plain.toWellFormed hext.plain
  shrinks := by
    have hordered := hp.tidy.closed.ordered
    have hordered' := hp.tidy_plain.closed.ordered
    constructor
    · intro k hk
      rw [gateBelow_iff_of_grown hordered hext.optimised.nodes h.held.has] at hk
      obtain ⟨j, hj, himage⟩ := h.shrinks.gates k hk
      refine ⟨j, ?_, (hext.image j hj.lt_size).trans himage⟩
      rwa [gateBelow_iff_of_grown hordered' hext.plain.nodes h.held_plain.has]
    · intro d e hd he
      rw [hasDepth_iff_of_grown hordered hext.optimised.nodes h.held.has] at hd
      rw [hasDepth_iff_of_grown hordered' hext.plain.nodes h.held_plain.has] at he
      exact h.shrinks.depth d e hd he

end Mirrors

def Builds (p : Pair) (result result' : Except Fault (Signal × Builder)) : Prop :=
  ∃ p' s t, result = .ok (s, p'.optimised) ∧ result' = .ok (t, p'.plain) ∧ p'.Sound ∧
    p.GrowsTo p' ∧ p'.Mirrors s t

namespace Sound

theorem mirrors_constant (h : p.Sound) (c : Bool) : p.Mirrors (.constant c) (.constant c) where
  held := h.tidy.held_constant c
  held_plain := h.tidy_plain.held_constant c
  shrinks := .of_not_gate fun ⟨_, _, hzero⟩ => by
    have hliteral := h.tidy.zero.symm.trans hzero
    cases hliteral

theorem addInput (h : p.Sound) (name : String) :
    ∃ p', p'.optimised = (p.optimised.addInput name).2 ∧ p'.plain = (p.plain.addInput name).2 ∧
      p'.Sound ∧ p.GrowsTo p' ∧
      p'.Mirrors (p.optimised.addInput name).1 (p.plain.addInput name).1 := by
  obtain ⟨htidy, hext, hheld⟩ := h.tidy.addInput name
  obtain ⟨htidy', hext', hheld'⟩ := h.tidy_plain.addInput name
  refine ⟨⟨_, _, p.image⟩, rfl, rfl, ⟨htidy, htidy', h.plain.folding, h.plain.hashing⟩,
    ⟨⟨hext, hext', fun _ _ => rfl⟩, rfl, rfl⟩, hheld, hheld', .of_not_gate ?_⟩
  rintro ⟨x, y, hand⟩
  have hinput : (p.optimised.addInput name).2.netlist.nodes[p.optimised.netlist.nodes.size]? =
      some (.input name) := Array.getElem?_push_size
  cases hinput.symm.trans hand

theorem addAnd (h : p.Sound) (hs : p.Mirrors s t) (hs' : p.Mirrors s' t') :
    p.Builds (p.optimised.addAnd s s') (p.plain.addAnd t t') := by
  obtain ⟨r, c, hadd, hc, hgrows, hr, hanswer⟩ := h.tidy.addAnd hs.held hs'.held
  obtain ⟨r', d, hadd', hd, hgrows', hr', -⟩ := h.tidy_plain.addAnd hs.held_plain hs'.held_plain
  obtain ⟨rfl, hd'⟩ :=
    Prod.mk.inj (Except.ok.inj (hadd'.symm.trans (h.plain.addAnd_eq t t')))
  have hgate : IsAndOf d.netlist.nodes p.plain.size t t' := by
    rw [hd']
    exact .inl Builder.getElem?_withAnd
  let p' : Pair := ⟨c, d, Function.update p.image p.plain.size r.node⟩
  have hp : p.GrowsTo p' := by
    refine ⟨⟨hgrows.extends, hgrows'.extends, fun j hj => ?_⟩, hgrows.outputs, hgrows'.outputs⟩
    exact Function.update_of_ne (Nat.ne_of_lt hj) _ _
  have hs₁ := hs.of_extends h hp.toExtends
  have hs₂ := hs'.of_extends h hp.toExtends
  refine ⟨p', r, _, hadd, hadd', ⟨hc, hd, h.plain.of_extends hp.plain⟩, hp, hr, hr', ?_⟩
  cases hanswer with
  | folded _ hfold =>
    -- The plain gate heads more than the constant or operand that it is folded to.
    rcases Builder.eq_of_foldAnd? hfold with rfl | rfl | rfl
    · exact .of_not_gate fun ⟨_, _, hzero⟩ => by cases hc.zero.symm.trans hzero
    · exact .under hs₁.shrinks hgate
    · exact .under hs₂.shrinks hgate.swap
  | gate _ hk hand _ =>
    subst hk
    exact .gate hand hgate (Function.update_self _ _ _) hs₁.shrinks hs₂.shrinks

theorem addOr (h : p.Sound) (hs : p.Mirrors s t) (hs' : p.Mirrors s' t') :
    p.Builds (p.optimised.addOr s s') (p.plain.addOr t t') := by
  obtain ⟨p', r, r', hadd, hadd', hp', hgrows, hr⟩ := h.addAnd hs.complement hs'.complement
  exact ⟨p', r.complement, r'.complement, Builder.addOr_eq hadd, Builder.addOr_eq hadd', hp',
    hgrows, hr.complement⟩

theorem expandXor (h : p.Sound) (hs : p.Mirrors s t) (hs' : p.Mirrors s' t') :
    p.Builds (p.optimised.expandXor s s') (p.plain.expandXor t t') := by
  obtain ⟨p₁, l, l', hl, hl', hp₁, hgrows₁, hlm⟩ := h.addAnd hs hs'.complement
  obtain ⟨p₂, r, r', hr, hr', hp₂, hgrows₂, hrm⟩ :=
    hp₁.addAnd (hs.of_extends h hgrows₁.toExtends).complement
      (hs'.of_extends h hgrows₁.toExtends)
  obtain ⟨p₃, o, o', ho, ho', hp₃, hgrows₃, hom⟩ :=
    hp₂.addOr (hlm.of_extends hp₁ hgrows₂.toExtends) hrm
  exact ⟨p₃, o, o', (Builder.expandXor_eq hl hr).trans ho, (Builder.expandXor_eq hl' hr').trans ho',
    hp₃, (hgrows₁.trans hgrows₂).trans hgrows₃, hom⟩

theorem foldXor (h : p.Sound) (hs : p.Mirrors s t) (hs' : p.Mirrors s' t') {r : Signal}
    (hfold : Builder.foldXor? s s' = some r) :
    p.Builds (.ok (r, p.optimised)) (p.plain.addXor t t') := by
  obtain ⟨r', d, hadd, hd, hgrows, hr', hanswer⟩ :=
    h.tidy_plain.addXor hs.held_plain hs'.held_plain
  have hplain := h.plain.of_extends hgrows.extends
  let p' : Pair := ⟨p.optimised, d, p.image⟩
  have hp : p.GrowsTo p' :=
    ⟨⟨.refl _, hgrows.extends, fun _ _ => rfl⟩, rfl, hgrows.outputs⟩
  have hs₁ := hs.of_extends h hp.toExtends
  have hs₂ := (hs'.of_extends h hp.toExtends).complement
  refine ⟨p', r, r', rfl, hadd, ⟨h.tidy, hd, hplain⟩, hp, ?_, hr', ?_⟩
  · rcases Builder.node_of_foldXor? hfold with hnode | hnode
    · exact hs.held.of_node_eq hnode
    · exact hs'.held.of_node_eq hnode
  · cases hanswer with
    | folded hfolding _ => exact absurd hfolding (by simp [hplain.folding])
    | @gates u v _ hu _ ho =>
      have hgate : IsAndOf d.netlist.nodes r'.complement.node u.complement v.complement :=
        hplain.isAndOf ho
      have hoperand : IsAndOf d.netlist.nodes u.node t t'.complement :=
        hplain.isAndOf hu
      refine .under ?_ hgate
      rcases Builder.node_of_foldXor? hfold with hnode | hnode <;> rw [hnode]
      · exact .under hs₁.shrinks hoperand
      · exact .under hs₂.shrinks hoperand.swap

theorem addXor (h : p.Sound) (hs : p.Mirrors s t) (hs' : p.Mirrors s' t') :
    p.Builds (p.optimised.addXor s s') (p.plain.addXor t t') := by
  rcases Builder.addXor_cases p.optimised s s' with ⟨r, -, hfold, hadd⟩ | ⟨-, hadd⟩ <;> rw [hadd]
  · exact h.foldXor hs hs' hfold
  · rw [h.plain.addXor_eq]
    exact h.expandXor hs hs'

end Sound

end Pair

namespace Construction

variable {c d : Construction} {image : Nat → Nat}

/-- Connects an output to the result at a position. -/
def addOutput (c : Construction) (output : String × Nat) : Construction :=
  { c with builder := c.builder.addOutput output.1 (c.operand output.2) }

def pair (image : Nat → Nat) (c d : Construction) : Pair := ⟨c.builder, d.builder, image⟩

/-- The results of each step mirror each other, and so do the outputs. -/
structure Mirrored (image : Nat → Nat) (c d : Construction) : Prop where
  sound : (pair image c d).Sound
  results : List.Forall₂ (pair image c d).Mirrors c.results d.results
  outputs : List.Forall₂ (fun p q => (pair image c d).Mirrors p.signal q.signal)
    c.builder.netlist.outputs.toList d.builder.netlist.outputs.toList

theorem mirrored_start (image : Nat → Nat) (name : String) (folding hashing : Bool) :
    Mirrored image (start name folding hashing) (start name false false) where
  sound := ⟨.new name folding hashing, .new name false false, rfl, rfl⟩
  results := .nil
  outputs := .nil

namespace Mirrored

theorem operand (h : Mirrored image c d) (i : Nat) :
    (pair image c d).Mirrors (c.operand i) (d.operand i) := by
  unfold Construction.operand
  have hlength := h.results.length_eq
  by_cases hi : i < c.results.length
  · have hi' : i < d.results.length := hlength ▸ hi
    rw [List.getElem?_eq_getElem hi, List.getElem?_eq_getElem hi']
    exact h.results.get hi hi'
  · rw [List.getElem?_eq_none (by omega), List.getElem?_eq_none (by omega)]
    exact h.sound.mirrors_constant false

theorem addOutput (h : Mirrored image c d) (output : String × Nat) :
    Mirrored image (c.addOutput output) (d.addOutput output) := by
  have hoperand := h.operand output.2
  obtain ⟨htidy, hext⟩ := h.sound.tidy.addOutput output.1 hoperand.held
  obtain ⟨htidy', hext'⟩ := h.sound.tidy_plain.addOutput output.1 hoperand.held_plain
  have hpair : (pair image c d).Extends (pair image (c.addOutput output) (d.addOutput output)) :=
    ⟨hext, hext', fun _ _ => rfl⟩
  refine ⟨⟨htidy, htidy', h.sound.plain.folding, h.sound.plain.hashing⟩, ?_, ?_⟩
  · exact h.results.imp fun _ _ hm => hm.of_extends h.sound hpair
  · simp only [Construction.addOutput, Builder.addOutput, Array.toList_push]
    refine List.rel_append (h.outputs.imp fun _ _ hm => hm.of_extends h.sound hpair) ?_
    exact .cons (hoperand.of_extends h.sound hpair) .nil

theorem addOutputs (h : Mirrored image c d) (outputs : List (String × Nat)) :
    Mirrored image (outputs.foldl Construction.addOutput c)
      (outputs.foldl Construction.addOutput d) := by
  induction outputs generalizing c d with
  | nil => exact h
  | cons output outputs ih => exact ih (h.addOutput output)

theorem answer (h : Mirrored image c d) {p : Pair} {s t : Signal} (hp : p.Sound)
    (hgrows : (pair image c d).GrowsTo p) (hs : p.Mirrors s t) :
    Mirrored p.image (c.answer (s, p.optimised)) (d.answer (t, p.plain)) where
  sound := hp
  results := by
    refine List.rel_append ?_ (.cons hs .nil)
    exact h.results.imp fun _ _ hm => hm.of_extends h.sound hgrows.toExtends
  outputs := by
    have houtputs : (c.answer (s, p.optimised)).builder.netlist.outputs =
      c.builder.netlist.outputs := hgrows.outputs
    have houtputs' : (d.answer (t, p.plain)).builder.netlist.outputs =
      d.builder.netlist.outputs := hgrows.outputs_plain
    rw [houtputs, houtputs']
    exact h.outputs.imp fun _ _ hm => hm.of_extends h.sound hgrows.toExtends

theorem gate (h : Mirrored image c d) {result result' : Except Fault (Signal × Builder)}
    (hbuilds : (pair image c d).Builds result result') :
    ∃ image' c' d', result.map c.answer = .ok c' ∧ result'.map d.answer = .ok d' ∧
      Mirrored image' c' d' := by
  obtain ⟨p, s, t, rfl, rfl, hp, hgrows, hs⟩ := hbuilds
  exact ⟨_, _, _, rfl, rfl, h.answer hp hgrows hs⟩

theorem step (h : Mirrored image c d) (op : Op) :
    ∃ image' c' d', c.step op = .ok c' ∧ d.step op = .ok d' ∧ Mirrored image' c' d' := by
  cases op with
  | input name =>
    obtain ⟨p, hoptimised, hplain, hp, hgrows, hs⟩ := h.sound.addInput name
    have hmirrored := h.answer hp hgrows hs
    rw [hoptimised, hplain] at hmirrored
    exact ⟨_, _, _, rfl, rfl, hmirrored⟩
  | constant v =>
    exact ⟨_, _, _, rfl, rfl, h.answer h.sound (.refl _) (h.sound.mirrors_constant v)⟩
  | and i j => exact h.gate (h.sound.addAnd (h.operand i) (h.operand j))
  | or i j => exact h.gate (h.sound.addOr (h.operand i) (h.operand j))
  | xor i j => exact h.gate (h.sound.addXor (h.operand i) (h.operand j))
  | not i => exact ⟨_, _, _, rfl, rfl, h.answer h.sound (.refl _) (h.operand i).complement⟩

theorem run (h : Mirrored image c d) (program : List Op) :
    ∃ image' c' d', c.run program = .ok c' ∧ d.run program = .ok d' ∧ Mirrored image' c' d' := by
  induction program generalizing image c d with
  | nil => exact ⟨image, c, d, rfl, rfl, h⟩
  | cons op program ih =>
    obtain ⟨image₁, c₁, d₁, hstep, hstep', h₁⟩ := h.step op
    obtain ⟨image₂, c₂, d₂, hrun, hrun', h₂⟩ := ih h₁
    refine ⟨image₂, c₂, d₂, ?_, ?_, h₂⟩
    · rw [Construction.run, List.foldlM_cons, hstep]
      exact hrun
    · rw [Construction.run, List.foldlM_cons, hstep']
      exact hrun'

/-- The live gates of the first run are images of live gates of the second. -/
theorem ncard_gatesBelowOutputs_le (h : Mirrored image c d) :
    c.builder.netlist.gatesBelowOutputs.ncard ≤ d.builder.netlist.gatesBelowOutputs.ncard := by
  have hfinite := h.sound.tidy_plain.closed.finite_gatesBelowOutputs
  have hsubset : c.builder.netlist.gatesBelowOutputs ⊆
      image '' d.builder.netlist.gatesBelowOutputs := by
    rintro k ⟨p, hp, hbelow⟩
    obtain ⟨i, hi, rfl⟩ := List.getElem_of_mem hp
    have hi' := h.outputs.length_eq ▸ hi
    obtain ⟨j, hj, himage⟩ := (h.outputs.get hi hi').shrinks.gates k hbelow
    exact ⟨j, ⟨_, List.getElem_mem hi', hj⟩, himage⟩
  exact (Set.ncard_le_ncard hsubset (hfinite.image image)).trans (Set.ncard_image_le hfinite)

theorem depth_le (h : Mirrored image c d) (i : Nat) :
    ∃ p q, IsGreatest {k | Chain c.builder.netlist.nodes (c.operand i).node k} p ∧
      IsGreatest {k | Chain d.builder.netlist.nodes (d.operand i).node k} q ∧ p ≤ q := by
  have hoperand := h.operand i
  obtain ⟨p, hp⟩ := h.sound.tidy.closed.ordered.ranked.exists_hasDepth hoperand.held.has
  obtain ⟨q, hq⟩ := h.sound.tidy_plain.closed.ordered.ranked.exists_hasDepth hoperand.held_plain.has
  exact ⟨p, q, hp.isGreatest, hq.isGreatest, hoperand.shrinks.depth p q hp hq⟩

end Mirrored

/-- Folding and sharing make no program worse. With and without them it runs; whatever outputs are
connected, there are no more live gates with them, which are those below the outputs, and no result
is deeper. -/
theorem optimisation_never_worse (name : String) (folding hashing : Bool) (program : List Op)
    (outputs : List (String × Nat)) :
    ∃ c d : Construction,
      (start name folding hashing).run program = .ok c ∧
      (start name false false).run program = .ok d ∧
      c.results.length = program.length ∧ d.results.length = program.length ∧
      (∃ p q, (outputs.foldl addOutput c).builder.netlist.numLiveGates = .ok p ∧
        (outputs.foldl addOutput d).builder.netlist.numLiveGates = .ok q ∧
        (outputs.foldl addOutput c).builder.netlist.gatesBelowOutputs.ncard = p ∧
        (outputs.foldl addOutput d).builder.netlist.gatesBelowOutputs.ncard = q ∧ p ≤ q) ∧
      ∀ i < program.length, ∃ p q,
        IsGreatest {k | Chain c.builder.netlist.nodes (c.operand i).node k} p ∧
        IsGreatest {k | Chain d.builder.netlist.nodes (d.operand i).node k} q ∧ p ≤ q := by
  obtain ⟨image, c, d, hrun, hplain, h⟩ := (mirrored_start id name folding hashing).run program
  obtain ⟨c', -, hrun', -, hlength, -⟩ := run_denotes name folding hashing program []
  obtain rfl := Except.ok.inj (hrun'.symm.trans hrun)
  have houtputs := h.addOutputs outputs
  exact ⟨c', d, hrun, hplain, hlength, h.results.length_eq ▸ hlength,
    ⟨_, _, houtputs.sound.tidy.closed.numLiveGates_eq,
      houtputs.sound.tidy_plain.closed.numLiveGates_eq, rfl, rfl,
      houtputs.ncard_gatesBelowOutputs_le⟩,
    fun i _ => h.depth_le i⟩

end Construction

end Aig
end LogicResynthesis
