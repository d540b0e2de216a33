import Mathlib.Tactic.SplitIfs
import LogicResynthesis.Proofs.CreationOrder
import LogicResynthesis.Xag.Basic

/-!
# The function of a signal of an XAG

The graphs that the constructors lead to are well-formed. There an AND or XOR
that is asked for is answered by a signal with its value, and the signals that
were there before keep theirs. At most one node is new, the gate that answers.
-/

namespace LogicResynthesis
namespace Xag

/-- The value of a node, given those of the earlier nodes, when input `i` has the value `a i`. -/
def entryValue (a : Nat → Bool) (values : Array Bool) : Node → Bool
  | .constant => false
  | .input i => a i
  | .and x y => readValue values x && readValue values y
  | .xor x y => readValue values x ^^ readValue values y

def value (g : Xag) (a : Nat → Bool) (s : Signal) : Bool := signalValue (entryValue a) g.nodes s

/-- The node of the signal exists. -/
def Has (g : Xag) (s : Signal) : Prop := s.node < g.nodes.size

/-- The second graph has further gates, and is otherwise the same. -/
structure GrowsTo (g g' : Xag) : Prop where
  nodes : g.nodes.toList <+: g'.nodes.toList
  inputs : g'.inputs = g.inputs
  outputs : g'.outputs = g.outputs

def Node.IsGate : Node → Prop
  | .and _ _ | .xor _ _ => True
  | _ => False

/-- The constant stands first and only there, nodes come after their fanins, the entries for
inputs are right in both directions, and the node of a gate is that gate. -/
structure WellFormed (g : Xag) : Prop where
  zero : g.nodes[0]? = some .constant
  ordered : InOrder Node.fanins g.nodes
  constant_only : ∀ n : Nat, g.nodes[n]? = some .constant → n = 0
  input_iff : ∀ i n : Nat, g.inputs[i]? = some n ↔ g.nodes[n]? = some (.input i)
  gates : ∀ (gate : Node) (n : Nat), g.gateNodes[gate]? = some n → g.nodes[n]? = some gate

variable {g : Xag} {x y : Signal}

section Value

variable (a : Nat → Bool)

@[simp] theorem value_complement (s : Signal) : g.value a s.complement = !g.value a s :=
  signalValue_complement _ s

theorem value_complementIf (s : Signal) (b : Bool) :
    g.value a (s.complementIf b) = (g.value a s ^^ b) :=
  signalValue_complementIf _ s b

theorem value_eq_regular (s : Signal) : g.value a s = (g.value a s.regular ^^ s.negated) :=
  signalValue_eq_ofNode _ s

theorem value_input {n i : Nat} (h : g.nodes[n]? = some (.input i)) :
    g.value a (.ofNode n) = a i :=
  signalValue_ofNode _ h

theorem value_and (hordered : InOrder Node.fanins g.nodes) {n : Nat}
    (h : g.nodes[n]? = some (.and x y)) :
    g.value a (.ofNode n) = (g.value a x && g.value a y) := by
  have hx := hordered n _ h x (by simp [Node.fanins])
  have hy := hordered n _ h y (by simp [Node.fanins])
  rw [value, signalValue_ofNode _ h, entryValue, readValue_take _ h hx, readValue_take _ h hy]
  rfl

theorem value_xor (hordered : InOrder Node.fanins g.nodes) {n : Nat}
    (h : g.nodes[n]? = some (.xor x y)) :
    g.value a (.ofNode n) = (g.value a x ^^ g.value a y) := by
  have hx := hordered n _ h x (by simp [Node.fanins])
  have hy := hordered n _ h y (by simp [Node.fanins])
  rw [value, signalValue_ofNode _ h, entryValue, readValue_take _ h hx, readValue_take _ h hy]
  rfl

theorem value_of_zero (h : g.nodes[0]? = some .constant) {s : Signal} (hs : s.node = 0) :
    g.value a s = s.negated := by
  have hzero : g.value a (.ofNode 0) = false := signalValue_ofNode _ h
  rw [value_eq_regular, Signal.regular, hs]
  exact (congrArg (· ^^ s.negated) hzero).trans (Bool.false_xor _)

theorem value_of_prefix {g' : Xag} (h : g.nodes.toList <+: g'.nodes.toList) {s : Signal}
    (hs : g.Has s) : g'.value a s = g.value a s :=
  signalValue_of_prefix h (fun _ _ _ => rfl) hs

end Value

namespace GrowsTo

variable {g' g'' : Xag}

theorem refl (g : Xag) : g.GrowsTo g := ⟨List.prefix_refl _, rfl, rfl⟩

theorem trans (h : g.GrowsTo g') (h' : g'.GrowsTo g'') : g.GrowsTo g'' :=
  ⟨h.nodes.trans h'.nodes, h'.inputs.trans h.inputs, h'.outputs.trans h.outputs⟩

theorem has (h : g.GrowsTo g') {s : Signal} (hs : g.Has s) : g'.Has s :=
  Nat.lt_of_lt_of_le hs (by simpa using h.nodes.length_le)

theorem value_eq (h : g.GrowsTo g') {s : Signal} (hs : g.Has s) (a : Nat → Bool) :
    g'.value a s = g.value a s :=
  value_of_prefix a h.nodes hs

end GrowsTo

theorem has_of_getElem? {n : Nat} {node : Node} (h : g.nodes[n]? = some node) (v : Bool) :
    g.Has ⟨n, v⟩ :=
  (Array.getElem?_eq_some_iff.mp h).1

/-- The signal has the value that `op` makes of those of `x` and `y`, and nothing that was there
has changed. -/
structure Answers (g : Xag) (x y : Signal) (op : Bool → Bool → Bool) (r : Signal × Xag) :
    Prop where
  wellFormed : r.2.WellFormed
  grows : g.GrowsTo r.2
  has : r.2.Has r.1
  value : ∀ a, r.2.value a r.1 = op (g.value a x) (g.value a y)

theorem Answers.swap {op : Bool → Bool → Bool} {r : Signal × Xag} (h : g.Answers x y op r)
    (hop : ∀ u v, op u v = op v u) : g.Answers y x op r where
  wellFormed := h.wellFormed
  grows := h.grows
  has := h.has
  value a := (h.value a).trans (hop _ _)

theorem Answers.self (h : g.WellFormed) {s : Signal} (hs : g.Has s) {op : Bool → Bool → Bool}
    (hvalue : ∀ a, g.value a s = op (g.value a x) (g.value a y)) : g.Answers x y op (s, g) :=
  ⟨h, GrowsTo.refl g, hs, hvalue⟩

section Interning

variable (gate : Node)

theorem WellFormed.push (h : g.WellFormed) (hgate : gate.IsGate)
    (hfanins : ∀ s ∈ gate.fanins, g.Has s) :
    WellFormed { g with
      nodes := g.nodes.push gate
      gateNodes := g.gateNodes.insert gate g.nodes.size } where
  zero := getElem?_push_of_some h.zero gate
  ordered := h.ordered.push hfanins
  constant_only n hn := by
    rcases getElem?_push_or hn with hn | ⟨-, rfl⟩
    · exact h.constant_only n hn
    · exact hgate.elim
  input_iff i n := by
    rw [h.input_iff i n]
    constructor
    · intro hn
      exact getElem?_push_of_some hn gate
    · intro hn
      rcases getElem?_push_or hn with hn | ⟨-, rfl⟩
      · exact hn
      · exact hgate.elim
  gates gate' n hn := by
    simp only [Std.HashMap.getElem?_insert, beq_iff_eq] at hn
    split_ifs at hn with hsame
    · obtain rfl := Option.some.inj hn
      rw [← hsame]
      exact Array.getElem?_push_size
    · exact getElem?_push_of_some (h.gates gate' n hn) gate

theorem growsTo_intern (g : Xag) : g.GrowsTo (g.intern gate).2 := by
  unfold intern
  cases g.gateNodes[gate]? with
  | some n => exact .refl g
  | none => exact ⟨by simp, rfl, rfl⟩

theorem intern_spec (h : g.WellFormed) (hgate : gate.IsGate)
    (hfanins : ∀ s ∈ gate.fanins, g.Has s) :
    (g.intern gate).2.WellFormed ∧ g.GrowsTo (g.intern gate).2 ∧
      (g.intern gate).2.nodes[(g.intern gate).1]? = some gate := by
  have hgrows := growsTo_intern gate g
  unfold intern at hgrows ⊢
  cases hknown : g.gateNodes[gate]? with
  | some n => exact ⟨h, .refl g, h.gates gate n hknown⟩
  | none =>
    rw [hknown] at hgrows
    exact ⟨h.push gate hgate hfanins, hgrows, Array.getElem?_push_size⟩

theorem has_fanins_and (hx : g.Has x) (hy : g.Has y) : ∀ s ∈ (Node.and x y).fanins, g.Has s := by
  simpa [Node.fanins] using ⟨hx, hy⟩

theorem has_fanins_xor (hx : g.Has x) (hy : g.Has y) : ∀ s ∈ (Node.xor x y).fanins, g.Has s := by
  simpa [Node.fanins] using ⟨hx, hy⟩

end Interning

theorem growsTo_addAnd (g : Xag) (x y : Signal) : g.GrowsTo (g.addAnd x y).2 := by
  unfold addAnd
  dsimp only
  split
  · exact .refl g
  · exact growsTo_intern _ g

theorem growsTo_addXor (g : Xag) (x y : Signal) : g.GrowsTo (g.addXor x y).2 := by
  unfold addXor
  dsimp only
  split
  · exact .refl g
  · exact growsTo_intern _ g

theorem foldAnd?_spec (h : g.WellFormed) (hx : g.Has x) (hy : g.Has y) {s : Signal}
    (hs : foldAnd? x y = some s) :
    g.Has s ∧ ∀ a, g.value a s = (g.value a x && g.value a y) := by
  have hzero : ∀ b : Bool, g.Has (.constant b) := has_of_getElem? h.zero
  have hconst : ∀ a, g.value a (.constant false) = false := fun a => value_of_zero a h.zero rfl
  unfold foldAnd? at hs
  split_ifs at hs with hnode hneg hnode hneg <;> obtain rfl := Option.some.inj hs
  · refine ⟨hx, fun a => ?_⟩
    have hsame : x = y := by
      cases x
      cases y
      simp_all
    rw [← hsame, Bool.and_self]
  · refine ⟨hzero false, fun a => ?_⟩
    rw [hconst a, value_eq_regular a x, value_eq_regular a y, Signal.regular, Signal.regular,
      hnode]
    cases hxn : x.negated <;> cases hyn : y.negated <;> simp_all
  · refine ⟨hy, fun a => ?_⟩
    rw [value_of_zero a h.zero hnode, hneg, Bool.true_and]
  · refine ⟨hzero false, fun a => ?_⟩
    rw [hconst a, value_of_zero a h.zero hnode, Bool.not_eq_true _ |>.mp hneg, Bool.false_and]

theorem addAnd_of_atMost (h : g.WellFormed) (hx : g.Has x) (hy : g.Has y)
    (hxy : x.atMost y = true) : g.Answers x y (· && ·) (g.addAnd x y) := by
  unfold addAnd
  rw [if_pos hxy, if_pos hxy]
  dsimp only
  cases hfold : foldAnd? x y with
  | some s =>
    obtain ⟨hs, hvalue⟩ := foldAnd?_spec h hx hy hfold
    exact .self h hs hvalue
  | none =>
    obtain ⟨h', hgrows, hnode⟩ := intern_spec (.and x y) h trivial (has_fanins_and hx hy)
    refine ⟨h', hgrows, has_of_getElem? hnode false, fun a => ?_⟩
    dsimp only
    rw [value_and a h'.ordered hnode, hgrows.value_eq hx, hgrows.value_eq hy]

theorem addAnd_answers (h : g.WellFormed) (hx : g.Has x) (hy : g.Has y) :
    g.Answers x y (· && ·) (g.addAnd x y) := by
  rcases Signal.atMost_total x y with hxy | hyx
  · exact addAnd_of_atMost h hx hy hxy
  · rw [addAnd_swap]
    exact (addAnd_of_atMost h hy hx hyx).swap Bool.and_comm

theorem foldXor?_spec (h : g.WellFormed) (hx : g.Has x) (hy : g.Has y) (hplain : x.negated = false)
    (hplain' : y.negated = false) {s : Signal} (hs : foldXor? x y = some s) :
    g.Has s ∧ ∀ a, g.value a s = (g.value a x ^^ g.value a y) := by
  unfold foldXor? at hs
  split_ifs at hs with hnode hnode <;> obtain rfl := Option.some.inj hs
  · refine ⟨has_of_getElem? h.zero false, fun a => ?_⟩
    have hsame : x = y := by
      cases x
      cases y
      simp_all
    rw [value_of_zero a h.zero rfl, hsame, Bool.xor_self]
    rfl
  · refine ⟨hy, fun a => ?_⟩
    rw [value_of_zero a h.zero hnode, hplain, Bool.false_xor]

theorem addXor_of_le (h : g.WellFormed) (hx : g.Has x) (hy : g.Has y) (hxy : x.node ≤ y.node) :
    g.Answers x y (· ^^ ·) (g.addXor x y) := by
  have hx' : g.Has x.regular := hx
  have hy' : g.Has y.regular := hy
  have hmoved : ∀ a, (g.value a x ^^ g.value a y) =
      (g.value a x.regular ^^ g.value a y.regular ^^ (x.negated ^^ y.negated)) := by
    intro a
    rw [value_eq_regular a x, value_eq_regular a y]
    cases g.value a x.regular <;> cases g.value a y.regular <;> cases x.negated <;>
      cases y.negated <;> rfl
  unfold addXor
  rw [if_pos hxy, if_pos hxy]
  dsimp only
  cases hfold : foldXor? x.regular y.regular with
  | some s =>
    obtain ⟨hs, hvalue⟩ := foldXor?_spec h hx' hy' rfl rfl hfold
    have hs' : g.Has (s.complementIf (x.negated ^^ y.negated)) := hs
    refine .self h hs' fun a => ?_
    rw [value_complementIf, hvalue a, hmoved a]
  | none =>
    obtain ⟨h', hgrows, hnode⟩ :=
      intern_spec (.xor x.regular y.regular) h trivial (has_fanins_xor hx' hy')
    refine ⟨h', hgrows, has_of_getElem? hnode _, fun a => ?_⟩
    have hgate := value_xor a h'.ordered hnode
    rw [hgrows.value_eq hx', hgrows.value_eq hy'] at hgate
    rw [hmoved a, ← hgate]
    exact value_eq_regular a _

theorem addXor_swap (g : Xag) (x y : Signal) : g.addXor x y = g.addXor y x := by
  rcases Nat.lt_trichotomy x.node y.node with hlt | heq | hgt
  · have hle := Nat.le_of_lt hlt
    have hnot := Nat.not_le.mpr hlt
    simp only [addXor, if_pos hle, if_neg hnot, Bool.xor_comm y.negated]
  · simp only [addXor, Signal.regular, heq, Bool.xor_comm y.negated]
  · have hle := Nat.le_of_lt hgt
    have hnot := Nat.not_le.mpr hgt
    simp only [addXor, if_pos hle, if_neg hnot, Bool.xor_comm y.negated]

theorem addXor_answers (h : g.WellFormed) (hx : g.Has x) (hy : g.Has y) :
    g.Answers x y (· ^^ ·) (g.addXor x y) := by
  rcases Nat.lt_or_ge y.node x.node with hlt | hle
  · rw [addXor_swap]
    exact (addXor_of_le h hy hx (Nat.le_of_lt hlt)).swap Bool.xor_comm
  · exact addXor_of_le h hx hy hle

section NewNodes

theorem nodes_intern (g : Xag) (gate : Node) :
    (g.intern gate).2.nodes = g.nodes ∨
      (g.intern gate).2.nodes = g.nodes.push gate ∧ (g.intern gate).1 = g.nodes.size := by
  unfold intern
  cases g.gateNodes[gate]? with
  | some n => exact .inl rfl
  | none => exact .inr ⟨rfl, rfl⟩

theorem nodes_addAnd (g : Xag) (x y : Signal) :
    (g.addAnd x y).2.nodes = g.nodes ∨
      ∃ a b, (g.addAnd x y).2.nodes = g.nodes.push (.and a b) ∧
        (g.addAnd x y).1.node = g.nodes.size := by
  unfold addAnd
  dsimp only
  split
  · exact .inl rfl
  · exact (nodes_intern g _).imp_right fun ⟨hnodes, hlast⟩ => ⟨_, _, hnodes, hlast⟩

theorem nodes_addXor (g : Xag) (x y : Signal) :
    (g.addXor x y).2.nodes = g.nodes ∨
      ∃ a b, (g.addXor x y).2.nodes = g.nodes.push (.xor a b) ∧
        (g.addXor x y).1.node = g.nodes.size := by
  unfold addXor
  dsimp only
  split
  · exact .inl rfl
  · exact (nodes_intern g _).imp_right fun ⟨hnodes, hlast⟩ => ⟨_, _, hnodes, hlast⟩

theorem WellFormed.addAnd_gate (h : g.WellFormed) (hx : g.Has x) (hy : g.Has y)
    (hne : x.node ≠ y.node) (hxzero : x.node ≠ 0) (hyzero : y.node ≠ 0) :
    (g.addAnd x y).2.nodes[(g.addAnd x y).1.node]? = some (.and x y) ∨
      (g.addAnd x y).2.nodes[(g.addAnd x y).1.node]? = some (.and y x) := by
  unfold addAnd
  dsimp only
  split_ifs
  · rw [(foldAnd?_eq_none_iff x y).mpr ⟨hne, hxzero⟩]
    exact .inl (intern_spec (.and x y) h trivial (has_fanins_and hx hy)).2.2
  · rw [(foldAnd?_eq_none_iff y x).mpr ⟨hne.symm, hyzero⟩]
    exact .inr (intern_spec (.and y x) h trivial (has_fanins_and hy hx)).2.2

theorem WellFormed.addXor_gate (h : g.WellFormed) (hx : g.Has x) (hy : g.Has y)
    (hne : x.node ≠ y.node) (hxzero : x.node ≠ 0) (hyzero : y.node ≠ 0) :
    (g.addXor x y).2.nodes[(g.addXor x y).1.node]? = some (.xor x.regular y.regular) ∨
      (g.addXor x y).2.nodes[(g.addXor x y).1.node]? = some (.xor y.regular x.regular) := by
  have hx' : g.Has x.regular := hx
  have hy' : g.Has y.regular := hy
  unfold addXor
  dsimp only
  split_ifs
  · rw [(foldXor?_eq_none_iff x.regular y.regular).mpr ⟨hne, hxzero⟩]
    exact .inl (intern_spec (.xor _ _) h trivial (has_fanins_xor hx' hy')).2.2
  · rw [(foldXor?_eq_none_iff y.regular x.regular).mpr ⟨hne.symm, hyzero⟩]
    exact .inr (intern_spec (.xor _ _) h trivial (has_fanins_xor hy' hx')).2.2

end NewNodes

theorem wellFormed_empty : empty.WellFormed where
  zero := rfl
  ordered := by
    intro n node hn
    have honly : ((#[] : Array Node).push .constant)[n]? = some node := hn
    rcases getElem?_push_or honly with hn | ⟨rfl, rfl⟩
    · simp at hn
    · simp [Node.fanins]
  constant_only n hn := Nat.lt_one_iff.mp (Array.getElem?_eq_some_iff.mp hn).1
  input_iff i n := by
    constructor
    · intro hn
      simp [empty] at hn
    · intro hn
      have honly : ((#[] : Array Node).push .constant)[n]? = some (.input i) := hn
      rcases getElem?_push_or honly with hn | ⟨-, hn⟩
      · simp at hn
      · cases hn
  gates gate n hn := by simp [empty] at hn

theorem wellFormed_addInput (h : g.WellFormed) : g.addInput.2.WellFormed where
  zero := getElem?_push_of_some h.zero _
  ordered := h.ordered.push (by simp [Node.fanins])
  constant_only n hn := by
    rcases getElem?_push_or hn with hn | ⟨-, hn⟩
    · exact h.constant_only n hn
    · cases hn
  input_iff i n := by
    constructor
    · intro hn
      rcases getElem?_push_or hn with hn | ⟨rfl, rfl⟩
      · exact getElem?_push_of_some ((h.input_iff i n).mp hn) _
      · exact Array.getElem?_push_size
    · intro hn
      rcases getElem?_push_or hn with hn | ⟨rfl, hi⟩
      · exact getElem?_push_of_some ((h.input_iff i n).mpr hn) _
      · obtain rfl := Node.input.inj hi
        exact Array.getElem?_push_size
  gates gate n hn := getElem?_push_of_some (h.gates gate n hn) _

theorem has_addInput : g.addInput.2.Has g.addInput.1 := by
  simp [Has, addInput, Signal.ofNode]

theorem wellFormed_addOutput (h : g.WellFormed) (s : Signal) : (g.addOutput s).WellFormed :=
  ⟨h.zero, h.ordered, h.constant_only, h.input_iff, h.gates⟩

/-- A graph that constructors applied to its own signals lead to. -/
inductive Reachable : Xag → Prop
  | empty : Reachable empty
  | addInput {g : Xag} (h : Reachable g) : Reachable g.addInput.2
  | addOutput {g : Xag} {x : Signal} (h : Reachable g) (hx : g.Has x) : Reachable (g.addOutput x)
  | addAnd {g : Xag} {x y : Signal} (h : Reachable g) (hx : g.Has x) (hy : g.Has y) :
      Reachable (g.addAnd x y).2
  | addXor {g : Xag} {x y : Signal} (h : Reachable g) (hx : g.Has x) (hy : g.Has y) :
      Reachable (g.addXor x y).2

theorem Reachable.wellFormed (h : g.Reachable) : g.WellFormed := by
  induction h with
  | empty => exact wellFormed_empty
  | addInput _ ih => exact wellFormed_addInput ih
  | addOutput _ _ ih => exact wellFormed_addOutput ih _
  | addAnd _ hx hy ih => exact (addAnd_answers ih hx hy).wellFormed
  | addXor _ hx hy ih => exact (addXor_answers ih hx hy).wellFormed

end Xag
end LogicResynthesis
