import LogicResynthesis.Proofs.Aig.Feeding
import LogicResynthesis.Proofs.Aig.Folding

/-!
# Shared gates

In a builder that shares gates, operands, outputs and answers are originals. So
the gate that answers for a conjunction has just its operands, and no other
original has. Whatever is built later, the conjunction, disjunction or exclusive
or of two signals has one answer, in either order.
-/

namespace LogicResynthesis
namespace Aig

def Node.port? (n : Nat) : Node → Option Port
  | .input name => some ⟨name, .ofNode n⟩
  | _ => none

/-- The entries for the input nodes of a list, in order. -/
def inputPorts (nodes : Array Node) : List Port :=
  nodes.toList.zipIdx.filterMap fun p => p.1.port? p.2

theorem inputPorts_push (nodes : Array Node) (node : Node) :
    inputPorts (nodes.push node) = inputPorts nodes ++ (node.port? nodes.size).toList := by
  cases hport : node.port? nodes.size <;>
    simp [inputPorts, List.zipIdx_append, List.filterMap_append, hport]

namespace Builder

variable {b b' : Builder} {x y r : Signal}

/-- A signal of the builder; of an original node, if gates are shared. -/
structure Held (b : Builder) (s : Signal) : Prop where
  has : b.Has s
  original : b.hashing = true → Original b.netlist.nodes s.node

/-- The entries for inputs are exact, the hash has been fed every gate, and gates and outputs refer
to held signals only. -/
structure Tidy (b : Builder) : Prop extends b.WellFormed where
  inputs : b.netlist.inputs.toList = inputPorts b.netlist.nodes
  remembers : ∀ h, b.hash = some h → h.Remembers b.netlist.nodes (gateNodes b.netlist.nodes)
  operands : ∀ (n : Nat) (x y : Signal), b.netlist.nodes[n]? = some (.and x y) →
    b.Held x ∧ b.Held y
  outputs : ∀ p ∈ b.netlist.outputs.toList, b.Held p.signal

/-- The second builder has the nodes of the first and possibly more, and the same options. -/
structure Extends (b b' : Builder) : Prop where
  nodes : b.netlist.nodes.toList <+: b'.netlist.nodes.toList
  folding : b'.folding = b.folding
  hashing : b'.hashing = b.hashing

theorem Extends.refl (b : Builder) : b.Extends b := ⟨List.prefix_refl _, rfl, rfl⟩

theorem Extends.trans {b'' : Builder} (h : b.Extends b') (h' : b'.Extends b'') : b.Extends b'' :=
  ⟨h.nodes.trans h'.nodes, h'.folding.trans h.folding, h'.hashing.trans h.hashing⟩

theorem GrowsTo.extends (h : b.GrowsTo b') : b.Extends b' := ⟨h.nodes, h.folding, h.hashing⟩

theorem Extends.has (h : b.Extends b') (hx : b.Has x) : b'.Has x :=
  Nat.lt_of_lt_of_le hx (by simpa using h.nodes.length_le)

section Held

theorem Held.complement (hx : b.Held x) : b.Held x.complement := ⟨hx.has, hx.original⟩

theorem Held.of_node_eq (hx : b.Held x) (h : y.node = x.node) : b.Held y := by
  obtain ⟨hhas, horiginal⟩ := hx
  unfold Has at hhas
  rw [← h] at hhas horiginal
  exact ⟨hhas, horiginal⟩

theorem Held.of_extends (h : b.WellFormed) (hext : b.Extends b') (hx : b.Held x) : b'.Held x where
  has := hext.has hx.has
  original hhashing :=
    (hx.original (hext.hashing ▸ hhashing)).of_grown h.closed.ordered hext.nodes

theorem WellFormed.held_constant (h : b.WellFormed) (v : Bool) : b.Held (.constant v) where
  has := has_constant h v
  original _ := .zero (has_constant h v)

end Held

namespace Tidy

theorem fed (h : b.Tidy) : b.Fed := ⟨h.toWellFormed, h.remembers⟩

theorem new (name : String) (folding hashing : Bool) : (new name folding hashing).Tidy where
  toWellFormed := wellFormed_new name folding hashing
  inputs := rfl
  remembers := (Fed.new name folding hashing).remembers
  operands n x y hn := by
    have honly : ((#[] : Array Node).push (.literal false))[n]? = some (.and x y) := hn
    rcases getElem?_push_or honly with hn | ⟨-, hn⟩
    · simp at hn
    · cases hn
  outputs := by simp [Builder.new]

theorem operands_of_extends (h : b.Tidy) (hext : b.Extends b') :
    ∀ (n : Nat) (x y : Signal), b.netlist.nodes[n]? = some (.and x y) → b'.Held x ∧ b'.Held y := by
  intro n x y hn
  obtain ⟨hx, hy⟩ := h.operands n x y hn
  exact ⟨hx.of_extends h.toWellFormed hext, hy.of_extends h.toWellFormed hext⟩

theorem outputs_of_extends (h : b.Tidy) (hext : b.Extends b') :
    ∀ p ∈ b.netlist.outputs.toList, b'.Held p.signal :=
  fun p hp => (h.outputs p hp).of_extends h.toWellFormed hext

theorem addInput (h : b.Tidy) (name : String) :
    (b.addInput name).2.Tidy ∧ b.Extends (b.addInput name).2 ∧
      (b.addInput name).2.Held (b.addInput name).1 := by
  have hext : b.Extends (b.addInput name).2 := ⟨by simp [Builder.addInput], rfl, rfl⟩
  have hfed := h.fed.addInput name
  refine ⟨⟨hfed.toWellFormed, ?_, hfed.remembers, ?_, h.outputs_of_extends hext⟩, hext,
    has_addInput b name, fun _ => .input Array.getElem?_push_size⟩
  · simp only [Builder.addInput, Array.toList_push, inputPorts_push, h.inputs]
    rfl
  · intro n x y hn
    rcases getElem?_push_or hn with hn | ⟨-, hn⟩
    · exact h.operands_of_extends hext n x y hn
    · cases hn

theorem addOutput (h : b.Tidy) (name : String) (hx : b.Held x) :
    (b.addOutput name x).Tidy ∧ b.Extends (b.addOutput name x) := by
  have hext : b.Extends (b.addOutput name x) := ⟨List.prefix_refl _, rfl, rfl⟩
  refine ⟨⟨wellFormed_addOutput b name h.toWellFormed hx.has, h.inputs, h.remembers,
    h.operands_of_extends hext, ?_⟩, hext⟩
  intro p hp
  simp only [Builder.addOutput, Array.toList_push, List.mem_append, List.mem_singleton] at hp
  rcases hp with hp | rfl
  · exact h.outputs_of_extends hext p hp
  · exact hx.of_extends h.toWellFormed hext

theorem depth? (h : b.Tidy) (hx : b.Held x) {depth : Nat}
    (hdepth : b.depth? x = .ok (some (depth, b'))) : b'.Tidy ∧ b.Extends b' := by
  obtain ⟨hfed, hnetlist, hfolding, hhashing⟩ := h.fed.depth? hx.has hdepth
  have hext : b.Extends b' := ⟨by rw [hnetlist], hfolding, hhashing⟩
  refine ⟨⟨hfed.toWellFormed, ?_, hfed.remembers, ?_, ?_⟩, hext⟩
  · rw [hnetlist, h.inputs]
  · rw [hnetlist]
    exact h.operands_of_extends hext
  · rw [hnetlist]
    exact h.outputs_of_extends hext

theorem of_feedsGate (h : b.Tidy) (hx : b.Held x) (hy : b.Held y) {k : Nat}
    (hb : b.FeedsGate x y k b') : b'.Tidy where
  toWellFormed := hb.fed.toWellFormed
  inputs := by
    rw [hb.grows.inputs, hb.nodes, inputPorts_push, h.inputs]
    simp [Node.port?]
  remembers := hb.fed.remembers
  operands n u v hn := by
    rw [hb.nodes] at hn
    rcases getElem?_push_or hn with hn | ⟨-, hn⟩
    · exact h.operands_of_extends hb.grows.extends n u v hn
    · obtain ⟨rfl, rfl⟩ := Node.and.inj hn
      exact ⟨hx.of_extends h.toWellFormed hb.grows.extends,
        hy.of_extends h.toWellFormed hb.grows.extends⟩
  outputs := by
    rw [hb.grows.outputs]
    exact h.outputs_of_extends hb.grows.extends

end Tidy

/-- A gate over `x` and `y` has been built, and node `k` answers for it. If gates are shared, that
is an original, and the new gate itself just if it is no duplicate. -/
structure Pushes (b : Builder) (x y : Signal) (k : Nat) (b' : Builder) : Prop where
  tidy : b'.Tidy
  grows : b.GrowsTo b'
  size_lt : b.size < b'.netlist.nodes.size
  isAndOf : IsAndOf b'.netlist.nodes k x y
  original : b'.hashing = true → Original b'.netlist.nodes k
  known : b'.hashing = true → (k ≠ b.size ↔ Duplicate b'.netlist.nodes b.size)

theorem Tidy.pushAnd (h : b.Tidy) (hx : b.Held x) (hy : b.Held y) :
    ∃ k b', b.pushAnd x y = .ok (.ofNode k, b') ∧ b.Pushes x y k b' := by
  obtain ⟨k, b', hpush, hb⟩ := h.fed.pushAnd hx.has hy.has
  have htidy := h.of_feedsGate hx hy hb
  refine ⟨k, b', hpush, htidy, hb.grows, ?_, ?_, hb.original, fun hhashing => ?_⟩
  · rw [hb.nodes, Array.size_push]
    exact Nat.lt_succ_self _
  · cases hhashing : b'.hashing with
    | false =>
      rw [hb.own hhashing]
      exact .inl hb.getElem?
    | true =>
      -- Its operands are originals like `x` and `y`, so being built alike makes them equal.
      refine IsAndOf.of_sameStructure hb.getElem?
        ((hx.of_extends h.toWellFormed hb.grows.extends).original hhashing)
        ((hy.of_extends h.toWellFormed hb.grows.extends).original hhashing)
        (fun c d hgate => ?_) (hb.sameStructure hhashing)
      obtain ⟨hc, hd⟩ := htidy.operands k c d hgate
      exact ⟨hc.original hhashing, hd.original hhashing⟩
  · constructor
    · intro hne
      have hk := hb.lt_size
      rw [hb.nodes, Array.size_push] at hk
      have hsize : b.size = b.netlist.nodes.size := rfl
      exact ⟨k, by omega, hb.sameStructure hhashing⟩
    · rintro hduplicate rfl
      exact (hb.original hhashing).first hduplicate

/-- Why `r` answers for the conjunction of `x` and `y`: it is folded to `r`, or it is not folded
and `r` is a gate over them, an original if gates are shared. -/
inductive AndAnswer (b : Builder) (x y r : Signal) : Prop
  | folded (hfolding : b.folding = true)
      (hfold : foldAnd? b.netlist.nodes x y = .ok (some r)) : AndAnswer b x y r
  | gate {k : Nat} (hfold : b.folding = true → foldAnd? b.netlist.nodes x y = .ok none)
      (hr : r = .ofNode k) (hk : IsAndOf b.netlist.nodes k x y)
      (horiginal : b.hashing = true → Original b.netlist.nodes k) : AndAnswer b x y r

/-- A disjunction is answered by the complement of what answers for the conjunction of the
complements. -/
def OrAnswer (b : Builder) (x y r : Signal) : Prop :=
  AndAnswer b x.complement y.complement r.complement

/-- Why `r` answers for the exclusive or of `x` and `y`. -/
inductive XorAnswer (b : Builder) (x y r : Signal) : Prop
  | folded (hfolding : b.folding = true) (hfold : foldXor? x y = some r) : XorAnswer b x y r
  | gates {s t : Signal} (hfold : b.folding = true → foldXor? x y = none)
      (hs : AndAnswer b x y.complement s) (ht : AndAnswer b x.complement y t)
      (hr : OrAnswer b s t r) : XorAnswer b x y r

namespace AndAnswer

variable {r' : Signal}

theorem has (h : b.AndAnswer x y r) (hwf : b.WellFormed) (hx : b.Has x) (hy : b.Has y) :
    b.Has r := by
  cases h with
  | folded _ hfold =>
    rcases eq_of_foldAnd? hfold with rfl | rfl | rfl
    · exact has_constant hwf false
    · exact hx
    · exact hy
  | gate _ hr hk _ =>
    rw [hr]
    exact hk.lt_size

theorem swap (h : b.AndAnswer x y r) (hwf : b.WellFormed) (hx : b.Has x) (hy : b.Has y) :
    b.AndAnswer y x r := by
  have hcomm := foldAnd?_comm hwf.closed.ordered hx hy
  cases h with
  | folded hfolding hfold => exact .folded hfolding (hcomm.symm.trans hfold)
  | gate hfold hr hk horiginal =>
    exact .gate (fun hfolding => hcomm.symm.trans (hfold hfolding)) hr hk.swap horiginal

theorem of_extends (h : b.AndAnswer x y r) (hwf : b.WellFormed) (hx : b.Has x) (hy : b.Has y)
    (hext : b.Extends b') : b'.AndAnswer x y r := by
  have hsame := foldAnd?_grown hext.nodes hx hy
  cases h with
  | folded hfolding hfold =>
    exact .folded (hext.folding.trans hfolding) (hsame.trans hfold)
  | gate hfold hr hk horiginal =>
    refine .gate (fun hfolding => hsame.trans (hfold (hext.folding ▸ hfolding))) hr
      (hk.of_grown hext.nodes) fun hhashing => ?_
    exact (horiginal (hext.hashing ▸ hhashing)).of_grown hwf.closed.ordered hext.nodes

theorem unique (h : b.AndAnswer x y r) (h' : b.AndAnswer x y r') (hwf : b.WellFormed)
    (hhashing : b.hashing = true) : r = r' := by
  cases h with
  | folded hfolding hfold =>
    cases h' with
    | folded _ hfold' =>
      exact Option.some.inj (Except.ok.inj (hfold.symm.trans hfold'))
    | gate hfold' _ _ _ => cases Except.ok.inj (hfold.symm.trans (hfold' hfolding))
  | gate hfold hr hk horiginal =>
    cases h' with
    | folded hfolding hfold' => cases Except.ok.inj (hfold'.symm.trans (hfold hfolding))
    | gate _ hr' hk' horiginal' =>
      have hsame := hk.sameStructure hwf.closed.ordered hk'
      rw [hr, hr', (horiginal hhashing).eq_of_sameStructure (horiginal' hhashing) hsame]

end AndAnswer

namespace XorAnswer

variable {r' : Signal}

theorem swap (h : b.XorAnswer x y r) (hwf : b.WellFormed) (hx : b.Has x) (hy : b.Has y) :
    b.XorAnswer y x r := by
  have hcomm := foldXor?_comm x y
  cases h with
  | folded hfolding hfold => exact .folded hfolding (hcomm.symm.trans hfold)
  | gates hfold hs ht hr =>
    have hhas := hs.has hwf hx (has_complement hy)
    have hhas' := ht.has hwf (has_complement hx) hy
    exact .gates (fun hfolding => hcomm.symm.trans (hfold hfolding))
      (ht.swap hwf (has_complement hx) hy) (hs.swap hwf hx (has_complement hy))
      (hr.swap hwf (has_complement hhas) (has_complement hhas'))

theorem of_extends (h : b.XorAnswer x y r) (hwf : b.WellFormed) (hx : b.Has x) (hy : b.Has y)
    (hext : b.Extends b') : b'.XorAnswer x y r := by
  cases h with
  | folded hfolding hfold => exact .folded (hext.folding.trans hfolding) hfold
  | gates hfold hs ht hr =>
    have hhas := hs.has hwf hx (has_complement hy)
    have hhas' := ht.has hwf (has_complement hx) hy
    exact .gates (fun hfolding => hfold (hext.folding ▸ hfolding))
      (hs.of_extends hwf hx (has_complement hy) hext)
      (ht.of_extends hwf (has_complement hx) hy hext)
      (hr.of_extends hwf (has_complement hhas) (has_complement hhas') hext)

theorem unique (h : b.XorAnswer x y r) (h' : b.XorAnswer x y r') (hwf : b.WellFormed)
    (hhashing : b.hashing = true) : r = r' := by
  cases h with
  | folded hfolding hfold =>
    cases h' with
    | folded _ hfold' => exact Option.some.inj (hfold.symm.trans hfold')
    | gates hfold' _ _ _ => cases hfold.symm.trans (hfold' hfolding)
  | gates hfold hs ht hr =>
    cases h' with
    | folded hfolding hfold' => cases hfold'.symm.trans (hfold hfolding)
    | gates _ hs' ht' hr' =>
      obtain rfl := hs.unique hs' hwf hhashing
      obtain rfl := ht.unique ht' hwf hhashing
      have hrr := congrArg Signal.complement (hr.unique hr' hwf hhashing)
      simpa using hrr

end XorAnswer

/-- The operation gives no fault; the builder stays tidy, and answers with a held signal. -/
def Builds (b : Builder) (Answer : Builder → Signal → Prop)
    (result : Except Fault (Signal × Builder)) : Prop :=
  ∃ r b', result = .ok (r, b') ∧ b'.Tidy ∧ b.GrowsTo b' ∧ b'.Held r ∧ Answer b' r

namespace Tidy

theorem addAnd (h : b.Tidy) (hx : b.Held x) (hy : b.Held y) :
    b.Builds (fun b' r => b'.AndAnswer x y r) (b.addAnd x y) := by
  rcases addAnd_cases h.toWellFormed hx.has hy.has with
    ⟨s, hfolding, hs, hadd⟩ | ⟨hfold, hadd⟩ <;> rw [hadd]
  · refine ⟨s, b, rfl, h, GrowsTo.refl b, ?_, .folded hfolding hs⟩
    rcases eq_of_foldAnd? hs with rfl | rfl | rfl
    · exact h.held_constant false
    · exact hx
    · exact hy
  · obtain ⟨k, b', hpush, hb'⟩ := h.pushAnd hx hy
    have hsame := foldAnd?_grown hb'.grows.nodes hx.has hy.has
    refine ⟨_, b', hpush, hb'.tidy, hb'.grows, ⟨hb'.isAndOf.lt_size, hb'.original⟩, ?_⟩
    exact .gate (fun hfolding => hsame.trans (hfold (hb'.grows.folding ▸ hfolding))) rfl
      hb'.isAndOf hb'.original

theorem addOr (h : b.Tidy) (hx : b.Held x) (hy : b.Held y) :
    b.Builds (fun b' r => b'.OrAnswer x y r) (b.addOr x y) := by
  obtain ⟨s, b', hadd, h', hgrows, hs, hanswer⟩ := h.addAnd hx.complement hy.complement
  refine ⟨s.complement, b', addOr_eq hadd, h', hgrows, hs.complement, ?_⟩
  change b'.AndAnswer x.complement y.complement s.complement.complement
  rwa [Signal.complement_complement]

theorem expandXor (h : b.Tidy) (hx : b.Held x) (hy : b.Held y)
    (hfold : b.folding = true → foldXor? x y = none) :
    b.Builds (fun b' r => b'.XorAnswer x y r) (b.expandXor x y) := by
  obtain ⟨s, b₁, hadd₁, h₁, hgrows₁, hs, hanswer₁⟩ := h.addAnd hx hy.complement
  have hx₁ := hx.of_extends h.toWellFormed hgrows₁.extends
  have hy₁ := hy.of_extends h.toWellFormed hgrows₁.extends
  obtain ⟨t, b₂, hadd₂, h₂, hgrows₂, ht, hanswer₂⟩ := h₁.addAnd hx₁.complement hy₁
  have hs₂ := hs.of_extends h₁.toWellFormed hgrows₂.extends
  have hx₂ := hx₁.of_extends h₁.toWellFormed hgrows₂.extends
  have hy₂ := hy₁.of_extends h₁.toWellFormed hgrows₂.extends
  obtain ⟨r, b₃, hadd₃, h₃, hgrows₃, hr, hanswer₃⟩ := h₂.addOr hs₂ ht
  have hgrows := (hgrows₁.trans hgrows₂).trans hgrows₃
  have hexpand := (expandXor_eq hadd₁ hadd₂).trans hadd₃
  refine ⟨r, b₃, hexpand, h₃, hgrows, hr, .gates (s := s) (t := t) ?_ ?_ ?_ hanswer₃⟩
  · exact fun hfolding => hfold (hgrows.folding ▸ hfolding)
  · exact hanswer₁.of_extends h₁.toWellFormed hx₁.has hy₁.complement.has
      (hgrows₂.trans hgrows₃).extends
  · exact hanswer₂.of_extends h₂.toWellFormed hx₂.complement.has hy₂.has hgrows₃.extends

theorem addXor (h : b.Tidy) (hx : b.Held x) (hy : b.Held y) :
    b.Builds (fun b' r => b'.XorAnswer x y r) (b.addXor x y) := by
  rcases addXor_cases b x y with ⟨s, hfolding, hfold, hadd⟩ | ⟨hfold, hadd⟩ <;> rw [hadd]
  · refine ⟨s, b, rfl, h, GrowsTo.refl b, ?_, .folded hfolding hfold⟩
    rcases node_of_foldXor? hfold with hnode | hnode
    · exact hx.of_node_eq hnode
    · exact hy.of_node_eq hnode
  · exact h.expandXor hx hy hfold

end Tidy

end Builder
end Aig
end LogicResynthesis
