import LogicResynthesis.Proofs.IndexList.Decoding

/-!
# What an index list denotes

The nodes of a list have values once its inputs have: the constant is `false`,
and a gate combines the values of its literals. Decoding a list whose literals
are all defined succeeds in every graph, and gives each node a signal of its
value, whatever the graph folds or shares.
-/

namespace LogicResynthesis
namespace IndexList

theorem unpairs_pairs {ws : List UInt32} {n : Nat} (h : ws.length = 2 * n) :
    unpairs (pairs ws) = ws ∧ (pairs ws).length = n := by
  induction n generalizing ws with
  | zero =>
    obtain rfl := List.length_eq_zero_iff.mp h
    exact ⟨rfl, rfl⟩
  | succ n ih =>
    match ws with
    | a :: b :: rest =>
      have heven : rest.length = 2 * n := by
        simp only [List.length_cons] at h
        omega
      obtain ⟨hrest, hlength⟩ := ih heven
      refine ⟨?_, congrArg (· + 1) hlength⟩
      simpa [unpairs, pairs] using hrest
    | [a] => simp at h; omega

theorem header_of_word (h : UInt32) :
    header (h.toNat % 256) (h.toNat / 65536) (h.toNat / 256 % 256) = h := by
  apply UInt32.toNat_inj.mp
  have hlt := h.toNat_lt
  rw [header, UInt32.toNat_ofNat']
  omega

theorem toWords_of_ofWords {words : List UInt32} {l : IndexList} (h : ofWords words = .ok l) :
    l.toWords = words := by
  cases words with
  | nil => cases h
  | cons head body =>
    unfold ofWords at h
    dsimp only at h
    split_ifs at h with hshort hlong
    obtain rfl := Except.ok.inj h
    have heven : (body.take (2 * (head.toNat / 65536))).length = 2 * (head.toNat / 65536) := by
      rw [List.length_take]
      omega
    obtain ⟨hpairs, hgates⟩ := unpairs_pairs heven
    have houtputs : (body.drop (2 * (head.toNat / 65536))).length = head.toNat / 256 % 256 := by
      rw [List.length_drop]
      omega
    unfold toWords
    rw [hgates, houtputs, header_of_word, hpairs, List.take_append_drop]

section Denotation

/-- The value of a literal, given those of the nodes. -/
def literalValue (values : Array Bool) (w : UInt32) : Bool :=
  values.getD (Literal.node w) false ^^ Literal.negated w

/-- A pair whose first literal is the larger one is an XOR, any other an AND. -/
def gateOp (p : UInt32 × UInt32) : Bool → Bool → Bool := if p.2 < p.1 then (· ^^ ·) else (· && ·)

def gateValue (values : Array Bool) (p : UInt32 × UInt32) : Bool :=
  gateOp p (literalValue values p.1) (literalValue values p.2)

/-- The values of gates that follow nodes of known values. -/
def gateValues (values : Array Bool) (gates : List (UInt32 × UInt32)) : Array Bool :=
  gates.foldl (fun values p => values.push (gateValue values p)) values

/-- The values of the nodes when input `i` has the value `x i`. -/
def nodeValues (l : IndexList) (x : Nat → Bool) : Array Bool :=
  gateValues (false :: (List.range l.inputs).map x).toArray l.gates

/-- The literals of gates that follow `defined` nodes name earlier nodes. -/
def GatesDefined (defined : Nat) (gates : List (UInt32 × UInt32)) : Prop :=
  ∀ (j : Nat) (p : UInt32 × UInt32), gates[j]? = some p →
    Literal.node p.1 < defined + j ∧ Literal.node p.2 < defined + j

/-- Every literal names a node that is defined where the literal stands. -/
structure Defined (l : IndexList) : Prop where
  gates : GatesDefined (1 + l.inputs) l.gates
  outputs : ∀ w ∈ l.outputs, Literal.node w < 1 + l.inputs + l.gates.length

theorem GatesDefined.head {defined : Nat} {p : UInt32 × UInt32} {rest : List (UInt32 × UInt32)}
    (h : GatesDefined defined (p :: rest)) :
    Literal.node p.1 < defined ∧ Literal.node p.2 < defined := h 0 p rfl

theorem GatesDefined.tail {defined : Nat} {p : UInt32 × UInt32} {rest : List (UInt32 × UInt32)}
    (h : GatesDefined defined (p :: rest)) : GatesDefined (defined + 1) rest := by
  intro j q hq
  have hlater := h (j + 1) q hq
  omega

end Denotation

/-- The signal of a literal, given those of the nodes. -/
def literalSignal (signals : Array Signal) (w : UInt32) : Signal :=
  (signals.getD (Literal.node w) (.constant false)).complementIf (Literal.negated w)

variable {signals signals' : Array Signal} {g g' : Xag}

theorem resolve_eq {w : UInt32} (hw : Literal.node w < signals.size) (position : Nat) :
    resolve signals position w = .ok (literalSignal signals w) := by
  simp [resolve, literalSignal, hw]

theorem resolveAll_eq {ws : List UInt32} (hws : ∀ w ∈ ws, Literal.node w < signals.size)
    (position : Nat) :
    resolveAll signals position ws = .ok (ws.map (literalSignal signals)) := by
  induction ws generalizing position with
  | nil => rfl
  | cons w rest ih =>
    have hrest := ih (fun v hv => hws v (List.mem_cons_of_mem _ hv)) (position + 1)
    rw [resolveAll, resolve_eq (hws w List.mem_cons_self), hrest]
    rfl

theorem literalValue_map {w : UInt32} (hw : Literal.node w < signals.size) (a : Nat → Bool) :
    literalValue (signals.map (g.value a)) w = g.value a (literalSignal signals w) := by
  rw [literalSignal, Xag.value_complementIf, literalValue]
  simp [hw]

theorem map_value_of_prefix (h : Built signals g) (hnodes : g.nodes.toList <+: g'.nodes.toList)
    (a : Nat → Bool) : signals.map (g'.value a) = signals.map (g.value a) :=
  Array.map_congr_left fun s hs => Xag.value_of_prefix a hnodes (h.has s hs)

section Inputs

variable (n : Nat) (signals : Array Signal) (g : Xag)

theorem signals_addInputs : (addInputs n signals g).1.toList =
    signals.toList ++ (List.range n).map fun i => .ofNode (g.nodes.size + i) := by
  induction n generalizing signals g with
  | zero => simp [addInputs]
  | succ n ih =>
    rw [addInputs, ih, List.range_succ_eq_map]
    simp [Xag.addInput, Function.comp_def, Nat.add_comm, Nat.add_left_comm]

theorem nodes_addInputs : (addInputs n signals g).2.nodes.toList =
    g.nodes.toList ++ (List.range n).map fun i => .input (g.inputs.size + i) := by
  induction n generalizing signals g with
  | zero => simp [addInputs]
  | succ n ih =>
    rw [addInputs, ih, List.range_succ_eq_map]
    simp [Xag.addInput, Function.comp_def, Nat.add_comm, Nat.add_left_comm]

theorem inputs_addInputs : (addInputs n signals g).2.inputs.toList =
    g.inputs.toList ++ (List.range n).map (g.nodes.size + ·) := by
  induction n generalizing signals g with
  | zero => simp [addInputs]
  | succ n ih =>
    rw [addInputs, ih, List.range_succ_eq_map]
    simp [Xag.addInput, Function.comp_def, Nat.add_comm, Nat.add_left_comm]

theorem outputs_addInputs : (addInputs n signals g).2.outputs = g.outputs := by
  induction n generalizing signals g with
  | zero => rfl
  | succ n ih => exact ih _ _

end Inputs

theorem map_value_addInputs (h : g.Reachable) (n : Nat) (a : Nat → Bool) :
    (addInputs n #[.constant false] g).1.map ((addInputs n #[.constant false] g).2.value a) =
      (false :: (List.range n).map fun i => a (g.inputs.size + i)).toArray := by
  have hstart : Built #[.constant false] g := .start h
  obtain ⟨hbuilt, -⟩ := hstart.addInputs n
  have hfirst : (addInputs n #[.constant false] g).2.value a (.constant false) = false :=
    Xag.value_of_zero a hbuilt.reachable.wellFormed.zero rfl
  have hinput : ∀ i ∈ List.range n,
      (addInputs n #[.constant false] g).2.value a (.ofNode (g.nodes.size + i)) =
        a (g.inputs.size + i) := by
    intro i hi
    apply Xag.value_input
    rw [← Array.getElem?_toList, nodes_addInputs, List.getElem?_append_right (by simp)]
    simp [List.mem_range.mp hi]
  apply Array.toList_inj.mp
  rw [Array.toList_map, signals_addInputs, List.map_append, List.map_map]
  exact congrArg₂ (· ++ ·) (congrArg (fun v => [v]) hfirst) (List.map_congr_left hinput)

theorem addGate_answers (h : g.WellFormed) (p : UInt32 × UInt32) {x y : Signal} (hx : g.Has x)
    (hy : g.Has y) : g.Answers x y (gateOp p) (addGate g p x y) := by
  unfold addGate gateOp
  split_ifs
  · exact Xag.addXor_answers h hx hy
  · exact Xag.addAnd_answers h hx hy

theorem size_gateValues (values : Array Bool) (gates : List (UInt32 × UInt32)) :
    (gateValues values gates).size = values.size + gates.length := by
  induction gates generalizing values with
  | nil => rfl
  | cons p rest ih =>
    refine (ih (values.push (gateValue values p))).trans ?_
    simp only [Array.size_push, List.length_cons]
    omega

theorem buildGates_ok {gates : List (UInt32 × UInt32)} (h : Built signals g)
    (hdefined : GatesDefined signals.size gates) (position : Nat) :
    ∃ signals' g', buildGates position gates signals g = (.ok signals', g') ∧
      Built signals' g' ∧ g.GrowsTo g' ∧ signals.toList <+: signals'.toList ∧
      ∀ a, signals'.map (g'.value a) = gateValues (signals.map (g.value a)) gates := by
  induction gates generalizing position signals g with
  | nil => exact ⟨signals, g, rfl, h, .refl g, List.prefix_refl _, fun _ => rfl⟩
  | cons p rest ih =>
    obtain ⟨hx, hy⟩ := hdefined.head
    have hasx := h.resolve (resolve_eq hx position)
    have hasy := h.resolve (resolve_eq hy (position + 1))
    have hgate := addGate_answers h.reachable.wellFormed p hasx hasy
    obtain ⟨hbuilt, -⟩ := h.addGate p hasx hasy
    have hrest := hdefined.tail
    rw [← Array.size_push (addGate g p (literalSignal signals p.1) (literalSignal signals p.2)).1]
      at hrest
    obtain ⟨signals', g', hrun, hbuilt', hgrows, hprefix, hvalues⟩ := ih hbuilt hrest (position + 2)
    refine ⟨signals', g', ?_, hbuilt', hgate.grows.trans hgrows, ?_, fun a => ?_⟩
    · rw [buildGates, resolve_eq hx, resolve_eq hy]
      exact hrun
    · rw [Array.toList_push] at hprefix
      exact (List.prefix_append _ _).trans hprefix
    · rw [hvalues a, Array.map_push, map_value_of_prefix h hgate.grows.nodes, hgate.value a,
        ← literalValue_map hx, ← literalValue_map hy]
      rfl

/-- The signals of the nodes of a list that was decoded inside `g`. They have the values of the
nodes, the outputs were appended with the signals of their literals, the inputs with their own,
and what was in `g` has not changed. -/
structure Decodes (l : IndexList) (g : Xag) (signals : Array Signal) (g' : Xag) : Prop where
  reachable : g'.Reachable
  size : signals.size = 1 + l.inputs + l.gates.length
  has : ∀ s ∈ signals, g'.Has s
  value : ∀ a, signals.map (g'.value a) = l.nodeValues fun i => a (g.inputs.size + i)
  nodes : g.nodes.toList <+: g'.nodes.toList
  inputs : g'.inputs.toList =
    g.inputs.toList ++ ((signals.toList.drop 1).take l.inputs).map (·.node)
  outputs : g'.outputs.toList = g.outputs.toList ++ l.outputs.map (literalSignal signals)

theorem addOutputs_eq (outputs : List Signal) (g : Xag) :
    (outputs.foldl Xag.addOutput g).outputs.toList = g.outputs.toList ++ outputs ∧
      (outputs.foldl Xag.addOutput g).nodes = g.nodes ∧
      (outputs.foldl Xag.addOutput g).inputs = g.inputs := by
  induction outputs generalizing g with
  | nil => simp
  | cons s rest ih =>
    obtain ⟨houtputs, hnodes, hinputs⟩ := ih (g.addOutput s)
    refine ⟨?_, hnodes, hinputs⟩
    rw [List.foldl_cons, houtputs]
    simp [Xag.addOutput]

theorem nodes_decodeInto_eq (l : IndexList) (g : Xag) :
    (l.decodeInto g).2.nodes = (buildGates 1 l.gates (addInputs l.inputs #[.constant false] g).1
      (addInputs l.inputs #[.constant false] g).2).2.nodes := by
  unfold decodeInto
  dsimp only
  cases buildGates 1 l.gates (addInputs l.inputs #[.constant false] g).1
      (addInputs l.inputs #[.constant false] g).2 with
  | mk result built =>
    cases result with
    | error e => rfl
    | ok all =>
      dsimp only
      cases resolveAll all (1 + 2 * l.gates.length) l.outputs with
      | error e => rfl
      | ok outputs => exact (addOutputs_eq outputs built).2.1

theorem size_addGate_le (g : Xag) (pair : UInt32 × UInt32) (x y : Signal) :
    (addGate g pair x y).2.size ≤ g.size + 1 := by
  unfold addGate Xag.size
  split_ifs
  · rcases g.nodes_addXor x y with hnodes | ⟨a, b, hnodes, -⟩ <;> simp [hnodes]
  · rcases g.nodes_addAnd x y with hnodes | ⟨a, b, hnodes, -⟩ <;> simp [hnodes]

theorem size_buildGates_le (position : Nat) (gates : List (UInt32 × UInt32))
    (signals : Array Signal) (g : Xag) :
    (buildGates position gates signals g).2.size ≤ g.size + gates.length := by
  induction gates generalizing position signals g with
  | nil => exact Nat.le_refl _
  | cons pair rest ih =>
    unfold buildGates
    rw [List.length_cons]
    cases resolve signals position pair.1 with
    | error e => exact Nat.le_add_right _ _
    | ok x =>
      cases resolve signals (position + 1) pair.2 with
      | error e => exact Nat.le_add_right _ _
      | ok y =>
        have hgate := size_addGate_le g pair x y
        have hrest := ih (position + 2) (signals.push (addGate g pair x y).1) (addGate g pair x y).2
        dsimp only
        omega

theorem size_decodeInto_le (l : IndexList) (g : Xag) :
    (l.decodeInto g).2.size ≤ g.size + l.inputs + l.gates.length := by
  have hinputs : (addInputs l.inputs #[.constant false] g).2.size = g.size + l.inputs := by
    have hlength := congrArg List.length (nodes_addInputs l.inputs #[.constant false] g)
    simpa [Xag.size] using hlength
  have hgates := size_buildGates_le 1 l.gates (addInputs l.inputs #[.constant false] g).1
    (addInputs l.inputs #[.constant false] g).2
  rwa [hinputs, Xag.size, ← nodes_decodeInto_eq] at hgates

theorem Defined.decodes {l : IndexList} (h : l.Defined) (hg : g.Reachable) :
    ∃ signals g', l.decodeInto g = (.ok signals, g') ∧ l.Decodes g signals g' := by
  obtain ⟨hinputs, -⟩ := (Built.start hg).addInputs l.inputs
  have hvalues := map_value_addInputs hg l.inputs
  have hsignals := signals_addInputs l.inputs #[.constant false] g
  have hnodes := nodes_addInputs l.inputs #[.constant false] g
  have hsize : (addInputs l.inputs #[.constant false] g).1.size = 1 + l.inputs :=
    size_addInputs l.inputs _ g
  have hdefined := h.gates
  rw [← hsize] at hdefined
  obtain ⟨signals, built, hrun, hbuilt, hgrows, hprefix, hvalue⟩ :=
    buildGates_ok hinputs hdefined 1
  have hfull : signals.size = 1 + l.inputs + l.gates.length := by
    have hmap := congrArg Array.size (hvalue fun _ => false)
    rwa [Array.size_map, size_gateValues, Array.size_map, hsize] at hmap
  have hliterals : ∀ w ∈ l.outputs, Literal.node w < signals.size := by
    rw [hfull]
    exact h.outputs
  have hresolve := resolveAll_eq hliterals (1 + 2 * l.gates.length)
  obtain ⟨houtputs, hnodes', hinputs'⟩ := addOutputs_eq (l.outputs.map (literalSignal signals)) built
  have hlast := (reachable_addOutputs hbuilt.reachable (hbuilt.resolveAll hresolve)).1
  have hgrown : g.nodes.toList <+: built.nodes.toList := by
    refine List.IsPrefix.trans ?_ hgrows.nodes
    rw [hnodes]
    exact List.prefix_append _ _
  refine ⟨signals, (l.outputs.map (literalSignal signals)).foldl Xag.addOutput built, ?_, hlast,
    hfull, ?_, ?_, ?_, ?_, ?_⟩
  · simp only [decodeInto, hrun, hresolve]
  · intro s hs
    rw [Xag.Has, hnodes']
    exact hbuilt.has s hs
  · intro a
    have hsame : ((l.outputs.map (literalSignal signals)).foldl Xag.addOutput built).value a =
        built.value a := by
      funext s
      rw [Xag.value, Xag.value, hnodes']
    rw [hsame, hvalue a, hvalues a]
    rfl
  · rw [hnodes']
    exact hgrown
  · obtain ⟨more, hmore⟩ := hprefix
    rw [hinputs', hgrows.inputs, inputs_addInputs, ← hmore, hsignals]
    simp [Signal.ofNode, Function.comp_def]
  · rw [houtputs, hgrows.outputs, outputs_addInputs]

/-- Words that are read as a list of defined literals are what the list encodes, and decoding it
inside a graph gives every node a signal of its value. -/
theorem decodeInto_denotes {words : List UInt32} {l : IndexList} (hwords : ofWords words = .ok l)
    (hdefined : l.Defined) {g : Xag} (hg : g.Reachable) :
    l.toWords = words ∧
      ∃ signals g', l.decodeInto g = (.ok signals, g') ∧ l.Decodes g signals g' :=
  ⟨toWords_of_ofWords hwords, hdefined.decodes hg⟩

/-- In a graph that has an input already, the second gate takes up the first, and a third one,
whose literals are those of the first, is the first. -/
theorem decodeInto_denotes_shared :
    ofWords [197379, 2, 4, 9, 6, 2, 4, 11, 13, 8] =
        .ok ⟨3, [(2, 4), (9, 6), (2, 4)], [11, 13, 8], by decide, by decide, by decide⟩ ∧
      ∃ signals g',
        decodeInto ⟨3, [(2, 4), (9, 6), (2, 4)], [11, 13, 8], by decide, by decide, by decide⟩
          Xag.empty.addInput.2 = (.ok signals, g') ∧
        Decodes ⟨3, [(2, 4), (9, 6), (2, 4)], [11, 13, 8], by decide, by decide, by decide⟩
          Xag.empty.addInput.2 signals g' := by
  have hdefined : Defined
      ⟨3, [(2, 4), (9, 6), (2, 4)], [11, 13, 8], by decide, by decide, by decide⟩ := by
    constructor
    · intro j p hp
      match j with
      | 0 | 1 | 2 => cases hp; decide
      | j + 3 => cases hp
    · rw [List.forall_mem_cons, List.forall_mem_cons, List.forall_mem_singleton]
      decide
  have hwords : ofWords [197379, 2, 4, 9, 6, 2, 4, 11, 13, 8] =
      .ok ⟨3, [(2, 4), (9, 6), (2, 4)], [11, 13, 8], by decide, by decide, by decide⟩ := rfl
  exact ⟨hwords, (decodeInto_denotes hwords hdefined (.addInput .empty)).2⟩

end IndexList
end LogicResynthesis
