import LogicResynthesis.Aig.Builder
import LogicResynthesis.Proofs.Aig.StructuralEquality

/-!
# What a builder builds

Whatever the options, a gate that is asked for is answered by a signal with its
value, without a fault, and the signals that were there before keep theirs. The
invariant behind this holds of every builder that its operations lead to.
-/

namespace LogicResynthesis
namespace Signal

theorem eq_constant_of_isFalse {s : Signal} (h : s.isFalse = true) : s = .constant false := by
  obtain ⟨n, p⟩ := s
  simp only [isFalse, Bool.and_eq_true, beq_iff_eq, Bool.not_eq_true'] at h
  obtain ⟨rfl, rfl⟩ := h
  rfl

theorem eq_constant_of_isTrue {s : Signal} (h : s.isTrue = true) : s = .constant true := by
  obtain ⟨n, p⟩ := s
  simp only [isTrue, Bool.and_eq_true, beq_iff_eq] at h
  obtain ⟨rfl, rfl⟩ := h
  rfl

end Signal

namespace Aig
namespace Builder

section Folding

variable {nodes : Array Node}

theorem asOr?_spec (hordered : Ordered nodes) {s : Signal} (hs : s.node < nodes.size) :
    ∃ r, asOr? nodes s = .ok r ∧ ∀ x y, r = some (x, y) →
      ∀ ρ, value nodes ρ s = (value nodes ρ x || value nodes ρ y) := by
  have hnode : nodes[s.node]? = some nodes[s.node] := Array.getElem?_eq_getElem hs
  unfold asOr?
  by_cases hneg : s.negated = true
  · rw [if_pos hneg, node?_eq hnode]
    cases hand : nodes[s.node] with
    | literal b => exact ⟨none, rfl, by simp⟩
    | input name => exact ⟨none, rfl, by simp⟩
    | and a b =>
      refine ⟨some (a.complement, b.complement), rfl, ?_⟩
      intro x y hxy ρ
      obtain ⟨rfl, rfl⟩ := Prod.mk.inj (Option.some.inj hxy)
      rw [value_eq_ofNode ρ s, value_and ρ hordered (hnode.trans (congrArg some hand)), hneg,
        value_complement, value_complement, Bool.xor_true, Bool.not_and]
  · exact ⟨none, if_neg hneg, by simp⟩

theorem absorbs?_spec (hordered : Ordered nodes) {s : Signal} (hs : s.node < nodes.size)
    (t : Signal) : ∃ r, absorbs? nodes s t = .ok r ∧
      (r = true → ∀ ρ, (value nodes ρ s && value nodes ρ t) = value nodes ρ t) := by
  obtain ⟨r, hr, hvalue⟩ := asOr?_spec hordered hs
  unfold absorbs?
  rw [hr]
  cases r with
  | none => exact ⟨false, rfl, by simp⟩
  | some p =>
    obtain ⟨x, y⟩ := p
    refine ⟨_, rfl, ?_⟩
    intro h ρ
    rw [hvalue x y rfl ρ]
    rw [Bool.or_eq_true, decide_eq_true_eq, decide_eq_true_eq] at h
    rcases h with rfl | rfl
    · rw [Bool.and_comm, Bool.and_or_distrib_left, Bool.and_self]
      cases value nodes ρ x <;> rfl
    · rw [Bool.and_comm, Bool.and_or_distrib_left, Bool.and_self]
      cases value nodes ρ x <;> cases value nodes ρ y <;> rfl

/-- The folding gives no fault, and a signal that it finds has the value of the conjunction. -/
def FoldsAnd (nodes : Array Node) (x y : Signal) (result : Except Fault (Option Signal)) : Prop :=
  ∃ r, result = .ok r ∧ ∀ s, r = some s →
    s.node < nodes.size ∧ ∀ ρ, value nodes ρ s = (value nodes ρ x && value nodes ρ y)

theorem foldsAnd_some {x y s : Signal} (hs : s.node < nodes.size)
    (hvalue : ∀ ρ, value nodes ρ s = (value nodes ρ x && value nodes ρ y)) :
    FoldsAnd nodes x y (.ok (some s)) := by
  refine ⟨some s, rfl, ?_⟩
  rintro _ ⟨⟩
  exact ⟨hs, hvalue⟩

theorem foldsAnd_absorbs (hordered : Ordered nodes) {x y : Signal} (hx : x.node < nodes.size)
    (hy : y.node < nodes.size) :
    FoldsAnd nodes x y (do
      if ← absorbs? nodes x y then return some y
      if ← absorbs? nodes y x then return some x
      return none) := by
  obtain ⟨r₁, hr₁, habsorb₁⟩ := absorbs?_spec hordered hx y
  obtain ⟨r₂, hr₂, habsorb₂⟩ := absorbs?_spec hordered hy x
  rw [hr₁, hr₂]
  cases r₁ with
  | true => exact foldsAnd_some hy fun ρ => (habsorb₁ rfl ρ).symm
  | false =>
    cases r₂ with
    | true => exact foldsAnd_some hx fun ρ => by rw [Bool.and_comm, habsorb₂ rfl ρ]
    | false => exact ⟨none, rfl, by simp⟩

/-- A conjunction that is folded is one of its operands or the constant. -/
theorem foldAnd?_spec (hordered : Ordered nodes) (hzero : nodes[0]? = some (.literal false))
    {x y : Signal} (hx : x.node < nodes.size) (hy : y.node < nodes.size) :
    FoldsAnd nodes x y (foldAnd? nodes x y) := by
  have hfirst : (Signal.constant false).node < nodes.size :=
    (Array.getElem?_eq_some_iff.mp hzero).1
  have hconst : ∀ ρ b, value nodes ρ (.constant b) = b := fun ρ b => value_constant ρ hzero b
  unfold foldAnd?
  split_ifs with hfalse htrue htrue' hsame hopposite
  · rw [Bool.or_eq_true] at hfalse
    rcases hfalse with h | h
    · exact foldsAnd_some hfirst fun ρ => by
        rw [Signal.eq_constant_of_isFalse h, hconst, Bool.false_and]
    · exact foldsAnd_some hfirst fun ρ => by
        rw [Signal.eq_constant_of_isFalse h, hconst, Bool.and_false]
  · exact foldsAnd_some hy fun ρ => by
      rw [Signal.eq_constant_of_isTrue htrue, hconst, Bool.true_and]
  · exact foldsAnd_some hx fun ρ => by
      rw [Signal.eq_constant_of_isTrue htrue', hconst, Bool.and_true]
  · exact foldsAnd_some hx fun ρ => by rw [hsame, Bool.and_self]
  · exact foldsAnd_some hfirst fun ρ => by
      rw [hconst, hopposite, Aig.value_complement, Bool.not_and_self]
  · exact foldsAnd_absorbs hordered hx hy

end Folding

/-- The constant stands first, gates come after their operands, outputs name nodes, and the
classes are those of the nodes. -/
structure WellFormed (b : Builder) : Prop where
  zero : b.netlist.nodes[0]? = some (.literal false)
  closed : b.netlist.Closed
  consistent : ∀ h, b.hash = some h → h.Consistent b.netlist.nodes

/-- The node of the signal exists. -/
def Has (b : Builder) (s : Signal) : Prop := s.node < b.netlist.nodes.size

def value (b : Builder) (a : Nat → Bool) (s : Signal) : Bool := b.netlist.value a s

/-- The second builder has further nodes, and is otherwise the same. -/
structure GrowsTo (b b' : Builder) : Prop where
  nodes : b.netlist.nodes.toList <+: b'.netlist.nodes.toList
  name : b'.netlist.name = b.netlist.name
  inputs : b'.netlist.inputs = b.netlist.inputs
  outputs : b'.netlist.outputs = b.netlist.outputs
  folding : b'.folding = b.folding
  hashing : b'.hashing = b.hashing

namespace GrowsTo

variable {b b' b'' : Builder}

theorem refl (b : Builder) : b.GrowsTo b := ⟨List.prefix_refl _, rfl, rfl, rfl, rfl, rfl⟩

theorem trans (h : b.GrowsTo b') (h' : b'.GrowsTo b'') : b.GrowsTo b'' where
  nodes := h.nodes.trans h'.nodes
  name := h'.name.trans h.name
  inputs := h'.inputs.trans h.inputs
  outputs := h'.outputs.trans h.outputs
  folding := h'.folding.trans h.folding
  hashing := h'.hashing.trans h.hashing

theorem size_le (h : b.GrowsTo b') : b.netlist.nodes.size ≤ b'.netlist.nodes.size := by
  simpa using h.nodes.length_le

theorem has (h : b.GrowsTo b') {s : Signal} (hs : b.Has s) : b'.Has s :=
  Nat.lt_of_lt_of_le hs h.size_le

theorem value_eq (h : b.GrowsTo b') {s : Signal} (hs : b.Has s) (a : Nat → Bool) :
    b'.value a s = b.value a s := by
  apply value_of_prefix h.nodes _ hs
  intro n _
  unfold Netlist.nodeInput Netlist.inputValues
  rw [h.inputs]

end GrowsTo

/-- Signals stay, and so do their values. -/
structure Keeps (b b' : Builder) : Prop where
  has : ∀ s, b.Has s → b'.Has s
  value_eq : ∀ s, b.Has s → ∀ a, b'.value a s = b.value a s

theorem Keeps.refl (b : Builder) : b.Keeps b := ⟨fun _ h => h, fun _ _ _ => rfl⟩

theorem Keeps.trans {b b' b'' : Builder} (h : b.Keeps b') (h' : b'.Keeps b'') : b.Keeps b'' where
  has s hs := h'.has s (h.has s hs)
  value_eq s hs a := (h'.value_eq s (h.has s hs) a).trans (h.value_eq s hs a)

theorem GrowsTo.keeps {b b' : Builder} (h : b.GrowsTo b') : b.Keeps b' :=
  ⟨fun _ hs => h.has hs, fun _ hs a => h.value_eq hs a⟩

variable {b : Builder} {x y : Signal}

theorem has_constant (h : b.WellFormed) (v : Bool) : b.Has (.constant v) :=
  (Array.getElem?_eq_some_iff.mp h.zero).1

theorem value_constant (h : b.WellFormed) (a : Nat → Bool) (v : Bool) :
    b.value a (.constant v) = v :=
  Aig.value_constant _ h.zero v

theorem has_complement (hx : b.Has x) : b.Has x.complement := hx

theorem has_complementIf (hx : b.Has x) (v : Bool) : b.Has (x.complementIf v) := hx

@[simp] theorem value_complement (a : Nat → Bool) (s : Signal) :
    b.value a s.complement = !b.value a s := Netlist.value_complement a s

theorem value_complementIf (a : Nat → Bool) (s : Signal) (v : Bool) :
    b.value a (s.complementIf v) = (b.value a s ^^ v) := Netlist.value_complementIf a s v

/-- The operation gives no fault; it answers with a signal of the value `op` makes of those of
`x` and `y`, and changes nothing that was there. -/
def Answers (b : Builder) (x y : Signal) (op : Bool → Bool → Bool)
    (result : Except Fault (Signal × Builder)) : Prop :=
  ∃ s b', result = .ok (s, b') ∧ b'.WellFormed ∧ b.GrowsTo b' ∧ b'.Has s ∧
    ∀ a, b'.value a s = op (b.value a x) (b.value a y)

def withAnd (g : Netlist) (x y : Signal) : Netlist := { g with nodes := g.nodes.push (.and x y) }

section WithAnd

variable {g : Netlist}

theorem getElem?_withAnd : (withAnd g x y).nodes[g.nodes.size]? = some (.and x y) :=
  Array.getElem?_push_size

theorem size_withAnd : (withAnd g x y).nodes.size = g.nodes.size + 1 := Array.size_push _

theorem prefix_withAnd : g.nodes.toList <+: (withAnd g x y).nodes.toList := by
  rw [withAnd, Array.toList_push]
  exact List.prefix_append _ _

theorem ordered_withAnd (h : Ordered g.nodes) (hx : x.node < g.nodes.size)
    (hy : y.node < g.nodes.size) : Ordered (withAnd g x y).nodes := by
  apply InOrder.push h
  simpa [Node.fanins] using ⟨hx, hy⟩

theorem closed_withAnd (h : g.Closed) (hx : x.node < g.nodes.size) (hy : y.node < g.nodes.size) :
    (withAnd g x y).Closed where
  ordered := ordered_withAnd h.ordered hx hy
  outputs_lt := by
    intro p hp
    rw [size_withAnd]
    exact Nat.lt_succ_of_lt (h.outputs_lt p hp)

end WithAnd

theorem WellFormed.withAnd (h : b.WellFormed) (hx : b.Has x) (hy : b.Has y)
    {hash : Option StructuralHash}
    (hhash : ∀ h', hash = some h' → h'.Consistent (withAnd b.netlist x y).nodes) :
    WellFormed ⟨withAnd b.netlist x y, b.folding, hash⟩ where
  zero := getElem?_push_of_some h.zero _
  closed := closed_withAnd h.closed hx hy
  consistent := hhash

theorem answers_withAnd (h : b.WellFormed) (hx : b.Has x) (hy : b.Has y)
    {hash : Option StructuralHash} {k : Nat} (hk : k < (withAnd b.netlist x y).nodes.size)
    (hsame : ∀ ρ, Aig.value (withAnd b.netlist x y).nodes ρ (.ofNode k) =
      Aig.value (withAnd b.netlist x y).nodes ρ (.ofNode b.netlist.nodes.size))
    (hhash : ∀ h', hash = some h' → h'.Consistent (withAnd b.netlist x y).nodes)
    (hsome : hash.isSome = b.hash.isSome) :
    b.Answers x y (· && ·) (.ok (.ofNode k, ⟨withAnd b.netlist x y, b.folding, hash⟩)) := by
  have hgrows : b.GrowsTo ⟨withAnd b.netlist x y, b.folding, hash⟩ :=
    ⟨prefix_withAnd, rfl, rfl, rfl, rfl, hsome⟩
  refine ⟨_, _, rfl, h.withAnd hx hy hhash, hgrows, hk, fun a => ?_⟩
  have hgate := value_and ((withAnd b.netlist x y).nodeInput a)
    (ordered_withAnd h.closed.ordered hx hy) getElem?_withAnd
  rw [← hgrows.value_eq hx, ← hgrows.value_eq hy]
  exact (hsame _).trans hgate

theorem pushAnd_of_feed {netlist : Netlist} {folding : Bool} {hash hash' : StructuralHash}
    {known : Option Nat}
    (hfeed : hash.feed (netlist.nodes.push (.and x y)) netlist.nodes.size = .ok (known, hash')) :
    pushAnd ⟨netlist, folding, some hash⟩ x y =
      .ok (.ofNode (known.getD netlist.nodes.size),
        ⟨withAnd netlist x y, folding, some hash'⟩) := by
  simp only [pushAnd, hfeed]
  rfl

theorem pushAnd_answers (h : b.WellFormed) (hx : b.Has x) (hy : b.Has y) :
    b.Answers x y (· && ·) (b.pushAnd x y) := by
  have hlast : b.netlist.nodes.size < (withAnd b.netlist x y).nodes.size := by
    rw [size_withAnd]
    exact Nat.lt_succ_self _
  have hordered := ordered_withAnd h.closed.ordered hx hy
  obtain ⟨netlist, folding, hash⟩ := b
  cases hash with
  | none => exact answers_withAnd h hx hy hlast (fun _ => rfl) (by simp) rfl
  | some hash =>
    have hconsistent := (h.consistent hash rfl).push (.and x y)
    obtain ⟨m, hash₁, known, hash', hfinds, hfeeds, hfeed⟩ :=
      hconsistent.feeds hordered.ranked hlast
    have hknown := hfeeds.sameStructure hfinds
    rw [pushAnd_of_feed hfeed]
    have hhash : ∀ h', some hash' = some h' → h'.Consistent (withAnd netlist x y).nodes := by
      rintro _ ⟨⟩
      exact hfeeds.consistent hfinds
    cases known with
    | none => exact answers_withAnd h hx hy hlast (fun _ => rfl) hhash rfl
    | some k =>
      obtain ⟨hk, hsame⟩ := hknown k rfl
      exact answers_withAnd h hx hy hk (fun ρ => hsame.value_eq hordered ρ) hhash rfl

theorem addAnd_cases (h : b.WellFormed) (hx : b.Has x) (hy : b.Has y) :
    (∃ s, b.folding = true ∧ foldAnd? b.netlist.nodes x y = .ok (some s) ∧
        b.addAnd x y = .ok (s, b)) ∨
      (b.folding = true → foldAnd? b.netlist.nodes x y = .ok none) ∧
        b.addAnd x y = b.pushAnd x y := by
  unfold addAnd
  by_cases hfolding : b.folding = true
  · obtain ⟨r, hr, -⟩ := foldAnd?_spec h.closed.ordered h.zero hx hy
    rw [if_pos hfolding, nodes, hr]
    cases r with
    | none => exact .inr ⟨fun _ => rfl, rfl⟩
    | some s => exact .inl ⟨s, hfolding, rfl, rfl⟩
  · rw [if_neg hfolding]
    exact .inr ⟨fun hfolding' => absurd hfolding' hfolding, rfl⟩

theorem addAnd_answers (h : b.WellFormed) (hx : b.Has x) (hy : b.Has y) :
    b.Answers x y (· && ·) (b.addAnd x y) := by
  rcases addAnd_cases h hx hy with ⟨s, -, hs, hadd⟩ | ⟨-, hadd⟩ <;> rw [hadd]
  · obtain ⟨r, hr, hfold⟩ := foldAnd?_spec h.closed.ordered h.zero hx hy
    obtain rfl := Except.ok.inj (hs.symm.trans hr)
    obtain ⟨hs, hvalue⟩ := hfold s rfl
    exact ⟨s, b, rfl, h, GrowsTo.refl b, hs, fun a => hvalue _⟩
  · exact pushAnd_answers h hx hy

theorem addOr_eq {s : Signal} {b' : Builder}
    (h : b.addAnd x.complement y.complement = .ok (s, b')) :
    b.addOr x y = .ok (s.complement, b') := by
  rw [addOr, h]
  rfl

theorem expandXor_eq {s t : Signal} {b₁ b₂ : Builder}
    (hs : b.addAnd x y.complement = .ok (s, b₁)) (ht : b₁.addAnd x.complement y = .ok (t, b₂)) :
    b.expandXor x y = b₂.addOr s t := by
  rw [expandXor, hs]
  change (b₁.addAnd x.complement y >>= fun r => r.2.addOr s r.1) = _
  rw [ht]
  rfl

theorem addOr_answers (h : b.WellFormed) (hx : b.Has x) (hy : b.Has y) :
    b.Answers x y (· || ·) (b.addOr x y) := by
  obtain ⟨s, b', hadd, h', hgrows, hs, hvalue⟩ :=
    addAnd_answers h (has_complement hx) (has_complement hy)
  refine ⟨s.complement, b', addOr_eq hadd, h', hgrows, has_complement hs, fun a => ?_⟩
  rw [value_complement, hvalue a, value_complement, value_complement, Bool.not_and, Bool.not_not,
    Bool.not_not]

theorem expandXor_answers (h : b.WellFormed) (hx : b.Has x) (hy : b.Has y) :
    b.Answers x y (· ^^ ·) (b.expandXor x y) := by
  obtain ⟨l, b₁, hl, h₁, hgrows₁, hasl, hvaluel⟩ := addAnd_answers h hx (has_complement hy)
  obtain ⟨r, b₂, hr, h₂, hgrows₂, hasr, hvaluer⟩ :=
    addAnd_answers h₁ (has_complement (hgrows₁.has hx)) (hgrows₁.has hy)
  obtain ⟨s, b₃, hs, h₃, hgrows₃, hass, hvalues⟩ := addOr_answers h₂ (hgrows₂.has hasl) hasr
  have hgrows := (hgrows₁.trans hgrows₂).trans hgrows₃
  refine ⟨s, b₃, (expandXor_eq hl hr).trans hs, h₃, hgrows, hass, fun a => ?_⟩
  rw [hvalues a, hgrows₂.value_eq hasl, hvaluel a, hvaluer a, value_complement, value_complement,
    hgrows₁.value_eq hx, hgrows₁.value_eq hy]
  cases b.value a x <;> cases b.value a y <;> rfl

theorem foldXor?_spec (h : b.WellFormed) (hx : b.Has x) (hy : b.Has y) {s : Signal}
    (hs : foldXor? x y = some s) :
    b.Has s ∧ ∀ a, b.value a s = (b.value a x ^^ b.value a y) := by
  unfold foldXor? at hs
  split_ifs at hs with hfalse hfalse' htrue htrue' <;> obtain rfl := Option.some.inj hs
  · refine ⟨hy, fun a => ?_⟩
    rw [Signal.eq_constant_of_isFalse hfalse, value_constant h, Bool.false_xor]
  · refine ⟨hx, fun a => ?_⟩
    rw [Signal.eq_constant_of_isFalse hfalse', value_constant h, Bool.xor_false]
  · refine ⟨has_complement hy, fun a => ?_⟩
    rw [Signal.eq_constant_of_isTrue htrue, value_constant h, value_complement, Bool.true_xor]
  · refine ⟨has_complement hx, fun a => ?_⟩
    rw [Signal.eq_constant_of_isTrue htrue', value_constant h, value_complement, Bool.xor_true]

theorem addXor_cases (b : Builder) (x y : Signal) :
    (∃ s, b.folding = true ∧ foldXor? x y = some s ∧ b.addXor x y = .ok (s, b)) ∨
      (b.folding = true → foldXor? x y = none) ∧ b.addXor x y = b.expandXor x y := by
  unfold addXor
  by_cases hfolding : b.folding = true
  · rw [if_pos hfolding]
    cases hfold : foldXor? x y with
    | none => exact .inr ⟨fun _ => rfl, rfl⟩
    | some s => exact .inl ⟨s, hfolding, rfl, rfl⟩
  · rw [if_neg hfolding]
    exact .inr ⟨fun hfolding' => absurd hfolding' hfolding, rfl⟩

theorem addXor_answers (h : b.WellFormed) (hx : b.Has x) (hy : b.Has y) :
    b.Answers x y (· ^^ ·) (b.addXor x y) := by
  rcases addXor_cases b x y with ⟨s, -, hfold, hadd⟩ | ⟨-, hadd⟩ <;> rw [hadd]
  · obtain ⟨hs, hvalue⟩ := foldXor?_spec h hx hy hfold
    exact ⟨s, b, rfl, h, GrowsTo.refl b, hs, hvalue⟩
  · exact expandXor_answers h hx hy

section Connections

variable (b) (name : String)

theorem wellFormed_new (folding hashing : Bool) : (new name folding hashing).WellFormed where
  zero := rfl
  closed := {
    ordered := by
      intro n node hn
      have honly : ((#[] : Array Node).push (.literal false))[n]? = some node := hn
      rcases getElem?_push_or honly with hn | ⟨rfl, rfl⟩
      · simp at hn
      · simp [Node.fanins]
    outputs_lt := by simp [new] }
  consistent := by
    intro h hh
    cases hashing with
    | false => cases hh
    | true =>
      obtain rfl := Option.some.inj hh
      exact StructuralHash.consistent_empty _

theorem wellFormed_addInput (h : b.WellFormed) : (b.addInput name).2.WellFormed where
  zero := getElem?_push_of_some h.zero _
  closed := {
    ordered := InOrder.push h.closed.ordered (by simp [Node.fanins])
    outputs_lt := by
      intro p hp
      exact Nat.lt_of_lt_of_le (h.closed.outputs_lt p hp) (by simp [addInput]) }
  consistent hash hh := (h.consistent hash hh).push _

theorem has_addInput : (b.addInput name).2.Has (b.addInput name).1 := by
  simp [Has, addInput, Signal.ofNode, size]

theorem nodeInput_addInput (a : Nat → Bool) (n : Nat) :
    (b.addInput name).2.netlist.nodeInput a n =
      if n = b.netlist.nodes.size then a b.netlist.inputs.size else b.netlist.nodeInput a n :=
  Netlist.nodeInput_push rfl rfl a n

theorem value_addInput (a : Nat → Bool) :
    (b.addInput name).2.value a (b.addInput name).1 = a b.netlist.inputs.size := by
  have hnode : (b.addInput name).2.netlist.nodes[b.netlist.nodes.size]? = some (.input name) :=
    Array.getElem?_push_size
  refine (value_input _ hnode).trans ?_
  rw [nodeInput_addInput, if_pos rfl]

theorem keeps_addInput : b.Keeps (b.addInput name).2 where
  has s hs := by
    simp only [Has, addInput, Array.size_push] at hs ⊢
    omega
  value_eq s hs a := by
    refine value_of_prefix ?_ ?_ hs
    · simp [addInput]
    · intro n hn
      rw [nodeInput_addInput, if_neg (Nat.ne_of_lt hn)]

theorem wellFormed_addOutput (h : b.WellFormed) (hx : b.Has x) :
    (b.addOutput name x).WellFormed where
  zero := h.zero
  closed := {
    ordered := h.closed.ordered
    outputs_lt := by
      intro p hp
      simp only [addOutput, Array.toList_push, List.mem_append, List.mem_singleton] at hp
      rcases hp with hp | rfl
      · exact h.closed.outputs_lt p hp
      · exact hx }
  consistent := h.consistent

theorem wellFormed_depth? (h : b.WellFormed) (hx : b.Has x) {depth : Nat} {b' : Builder}
    (hdepth : b.depth? x = .ok (some (depth, b'))) : b'.WellFormed := by
  unfold depth? at hdepth
  cases hhash : b.hash with
  | none =>
    rw [hhash] at hdepth
    cases hdepth
  | some hash =>
    obtain ⟨m, hash', hsum, hfinds⟩ :=
      (h.consistent hash hhash).summarize h.closed.ordered.ranked hx
    rw [hhash] at hdepth
    dsimp only [nodes] at hdepth
    rw [hsum] at hdepth
    obtain ⟨-, rfl⟩ := Prod.mk.inj (Option.some.inj (Except.ok.inj hdepth))
    refine ⟨h.zero, h.closed, ?_⟩
    rintro _ ⟨⟩
    exact hfinds.consistent

end Connections

/-- A builder that operations on signals of its own lead to. -/
inductive Reachable : Builder → Prop
  | new (name : String) (folding hashing : Bool) : Reachable (new name folding hashing)
  | addInput {b : Builder} (h : Reachable b) (name : String) : Reachable (b.addInput name).2
  | addOutput {b : Builder} {x : Signal} (h : Reachable b) (hx : b.Has x) (name : String) :
      Reachable (b.addOutput name x)
  | addAnd {b b' : Builder} {x y s : Signal} (h : Reachable b) (hx : b.Has x) (hy : b.Has y)
      (hadd : b.addAnd x y = .ok (s, b')) : Reachable b'
  | addOr {b b' : Builder} {x y s : Signal} (h : Reachable b) (hx : b.Has x) (hy : b.Has y)
      (hadd : b.addOr x y = .ok (s, b')) : Reachable b'
  | addXor {b b' : Builder} {x y s : Signal} (h : Reachable b) (hx : b.Has x) (hy : b.Has y)
      (hadd : b.addXor x y = .ok (s, b')) : Reachable b'
  | depth? {b b' : Builder} {x : Signal} {depth : Nat} (h : Reachable b) (hx : b.Has x)
      (hdepth : b.depth? x = .ok (some (depth, b'))) : Reachable b'

theorem Answers.wellFormed {op : Bool → Bool → Bool} {result : Except Fault (Signal × Builder)}
    (h : b.Answers x y op result) {s : Signal} {b' : Builder} (hresult : result = .ok (s, b')) :
    b'.WellFormed := by
  obtain ⟨s₁, b₁, hok, h₁, -⟩ := h
  rw [hok] at hresult
  obtain ⟨-, rfl⟩ := Prod.mk.inj (Except.ok.inj hresult)
  exact h₁

theorem Reachable.wellFormed (h : b.Reachable) : b.WellFormed := by
  induction h with
  | new name folding hashing => exact wellFormed_new name folding hashing
  | addInput _ name ih => exact wellFormed_addInput _ name ih
  | addOutput _ hx name ih => exact wellFormed_addOutput _ name ih hx
  | addAnd _ hx hy hadd ih => exact (addAnd_answers ih hx hy).wellFormed hadd
  | addOr _ hx hy hadd ih => exact (addOr_answers ih hx hy).wellFormed hadd
  | addXor _ hx hy hadd ih => exact (addXor_answers ih hx hy).wellFormed hadd
  | depth? _ hx hdepth ih => exact wellFormed_depth? _ ih hx hdepth

/-- Gates are neither folded nor shared. -/
structure Plain (b : Builder) : Prop where
  folding : b.folding = false
  hashing : b.hashing = false

theorem Plain.addAnd_eq (h : b.Plain) (x y : Signal) :
    b.addAnd x y = .ok (.ofNode b.size, ⟨withAnd b.netlist x y, b.folding, b.hash⟩) := by
  obtain ⟨netlist, folding, hash⟩ := b
  obtain rfl : folding = false := h.folding
  obtain rfl : hash = none := Option.isNone_iff_eq_none.mp (Option.isSome_eq_false_iff.mp h.hashing)
  rfl

theorem Plain.addAnd (h : b.Plain) (x y : Signal) :
    ∃ s b', b.addAnd x y = .ok (s, b') ∧ b'.Plain ∧ b'.size = b.size + 1 :=
  ⟨_, _, h.addAnd_eq x y, ⟨h.folding, h.hashing⟩, Array.size_push _⟩

theorem Plain.addXor_eq (h : b.Plain) (x y : Signal) : b.addXor x y = b.expandXor x y := by
  rw [Builder.addXor, if_neg (by simp [h.folding])]

theorem Plain.addXor (h : b.Plain) (x y : Signal) :
    ∃ s b', b.addXor x y = .ok (s, b') ∧ b'.Plain ∧ b'.size = b.size + 3 := by
  obtain ⟨s, b₁, hleft, h₁, hsize₁⟩ := h.addAnd x y.complement
  obtain ⟨t, b₂, hright, h₂, hsize₂⟩ := h₁.addAnd x.complement y
  obtain ⟨u, b₃, hlast, h₃, hsize₃⟩ := h₂.addAnd s.complement t.complement
  refine ⟨u.complement, b₃, ?_, h₃, by omega⟩
  rw [h.addXor_eq, expandXor_eq hleft hright, addOr_eq hlast]

theorem Reachable.value?_eq (h : b.Reachable) (hx : b.Has x) (a : Nat → Bool) :
    b.netlist.value? a x = .ok (b.value a x) :=
  h.wellFormed.closed.value?_eq a hx

end Builder
end Aig
end LogicResynthesis
