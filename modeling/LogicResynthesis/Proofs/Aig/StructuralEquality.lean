import Mathlib.Tactic.SplitIfs
import LogicResynthesis.Aig.StructuralHash
import LogicResynthesis.Proofs.Aig.Depth

/-!
# Structural classes and structural equality

Two nodes are structurally equal if they are built alike, up to the order of the
operands of a gate. They have the same value and the same depth. A hash that is
consistent with a netlist gives one class to just the structurally equal nodes;
summarizing and feeding nodes keeps it consistent.
-/

namespace LogicResynthesis
namespace Aig

/-- Nodes that are built alike. -/
inductive SameStructure (nodes : Array Node) : Nat → Nat → Prop
  | literal {n m : Nat} {b : Bool} (hn : nodes[n]? = some (.literal b))
      (hm : nodes[m]? = some (.literal b)) : SameStructure nodes n m
  | input {n : Nat} {name : String} (hn : nodes[n]? = some (.input name)) : SameStructure nodes n n
  | and {n m : Nat} {a b c d : Signal} (hn : nodes[n]? = some (.and a b))
      (hm : nodes[m]? = some (.and c d)) (hac : SameStructure nodes a.node c.node)
      (hac' : a.negated = c.negated) (hbd : SameStructure nodes b.node d.node)
      (hbd' : b.negated = d.negated) : SameStructure nodes n m
  | swapped {n m : Nat} {a b c d : Signal} (hn : nodes[n]? = some (.and a b))
      (hm : nodes[m]? = some (.and c d)) (had : SameStructure nodes a.node d.node)
      (had' : a.negated = d.negated) (hbc : SameStructure nodes b.node c.node)
      (hbc' : b.negated = c.negated) : SameStructure nodes n m

theorem value_congr_node {nodes : Array Node} (ρ : Nat → Bool) {s t : Signal}
    (h : value nodes ρ (.ofNode s.node) = value nodes ρ (.ofNode t.node))
    (hneg : s.negated = t.negated) : value nodes ρ s = value nodes ρ t := by
  rw [value_eq_ofNode ρ s, value_eq_ofNode ρ t, h, hneg]

theorem SameStructure.value_eq {nodes : Array Node} (hordered : Ordered nodes) (ρ : Nat → Bool)
    {n m : Nat} (h : SameStructure nodes n m) :
    value nodes ρ (.ofNode n) = value nodes ρ (.ofNode m) := by
  induction h with
  | literal hn hm => rw [value_literal ρ hn, value_literal ρ hm]
  | input hn => rfl
  | and hn hm _ hac' _ hbd' hac hbd =>
    rw [value_and ρ hordered hn, value_and ρ hordered hm, value_congr_node ρ hac hac',
      value_congr_node ρ hbd hbd']
  | swapped hn hm _ had' _ hbc' had hbc =>
    rw [value_and ρ hordered hn, value_and ρ hordered hm, value_congr_node ρ had had',
      value_congr_node ρ hbc hbc', Bool.and_comm]

namespace SameStructure

variable {nodes : Array Node} {n k : Nat}

theorem symm (h : SameStructure nodes n k) : SameStructure nodes k n := by
  induction h with
  | literal hn hm => exact .literal hm hn
  | input hn => exact .input hn
  | and hn hm _ hac' _ hbd' hac hbd => exact .and hm hn hac hac'.symm hbd hbd'.symm
  | swapped hn hm _ had' _ hbc' had hbc => exact .swapped hm hn hbc hbc'.symm had had'.symm

theorem hasDepth (h : SameStructure nodes n k) {d : Nat} (hd : HasDepth nodes n d) :
    HasDepth nodes k d := by
  induction h generalizing d with
  | literal hn hm =>
    obtain rfl := hd.unique (.literal hn)
    exact .literal hm
  | input hn => exact hd
  | and hn hm _ _ _ _ hac hbd =>
    obtain ⟨p, q, hp, hq, rfl⟩ := (HasDepth.and_iff hn).mp hd
    exact .and hm (hac hp) (hbd hq)
  | swapped hn hm _ _ _ _ had hbc =>
    obtain ⟨p, q, hp, hq, rfl⟩ := (HasDepth.and_iff hn).mp hd
    rw [Nat.max_comm]
    exact .and hm (hbc hq) (had hp)

end SameStructure

namespace StructuralHash

/-- Different shapes have different numbers, all below the number of shapes. -/
structure Numbered (classes : Std.HashMap Shape Nat) : Prop where
  injective : ∀ (s t : Shape) (c : Nat), classes[s]? = some c → classes[t]? = some c → s = t
  lt_size : ∀ (s : Shape) (c : Nat), classes[s]? = some c → c < classes.size

theorem numbered_empty : Numbered ∅ where
  injective s t c h := by simp at h
  lt_size s c h := by simp at h

theorem getElem?_insertIfNew (classes : Std.HashMap Shape Nat) (shape s : Shape) :
    (classes.insertIfNew shape (classes[shape]?.getD classes.size))[s]? =
      if shape = s then some (classes[shape]?.getD classes.size) else classes[s]? := by
  rw [Std.HashMap.getElem?_insertIfNew]
  by_cases hs : shape = s
  · subst hs
    by_cases hmem : shape ∈ classes
    · simp [hmem]
    · simp [hmem]
  · simp [hs]

theorem Numbered.insert_new {classes : Std.HashMap Shape Nat} (h : Numbered classes)
    {shape : Shape} (hnew : shape ∉ classes) :
    Numbered (classes.insertIfNew shape (classes[shape]?.getD classes.size)) := by
  have hnone := Std.HashMap.getElem?_eq_none hnew
  have hsize : (classes.insertIfNew shape (classes[shape]?.getD classes.size)).size =
      classes.size + 1 := by
    rw [Std.HashMap.size_insertIfNew, if_neg hnew]
  constructor
  · intro s t c hs ht
    rw [getElem?_insertIfNew, hnone, Option.getD_none] at hs ht
    split_ifs at hs ht with hs' ht' ht'
    · exact hs'.symm.trans ht'
    · have hlt := h.lt_size t c ht
      simp only [Option.some.injEq] at hs
      omega
    · have hlt := h.lt_size s c hs
      simp only [Option.some.injEq] at ht
      omega
    · exact h.injective s t c hs ht
  · intro s c hs
    rw [getElem?_insertIfNew, hnone, Option.getD_none] at hs
    split_ifs at hs with hs'
    · simp only [Option.some.injEq] at hs
      omega
    · have hlt := h.lt_size s c hs
      omega

theorem Numbered.insertIfNew {classes : Std.HashMap Shape Nat} (h : Numbered classes)
    (shape : Shape) :
    Numbered (classes.insertIfNew shape (classes[shape]?.getD classes.size)) := by
  by_cases hmem : shape ∈ classes
  · have hsame : ∀ s : Shape, (classes.insertIfNew shape
        (classes[shape]?.getD classes.size))[s]? = classes[s]? := by
      intro s
      rw [Std.HashMap.getElem?_insertIfNew, if_neg (by simp [hmem])]
    have hsize : (classes.insertIfNew shape (classes[shape]?.getD classes.size)).size =
        classes.size := by
      rw [Std.HashMap.size_insertIfNew, if_pos hmem]
    constructor
    · simp only [hsame]
      exact h.injective
    · simp only [hsame, hsize]
      exact h.lt_size
  · exact h.insert_new hmem

theorem gateShape_eq (a b : Signal) : gateShape a b = .and a b ∨ gateShape a b = .and b a := by
  unfold gateShape
  split_ifs
  · exact Or.inl rfl
  · exact Or.inr rfl

theorem gateShape_injective {a b c d : Signal} (h : gateShape a b = gateShape c d) :
    a = c ∧ b = d ∨ a = d ∧ b = c := by
  rcases gateShape_eq a b with hab | hab <;> rcases gateShape_eq c d with hcd | hcd <;>
    rw [hab, hcd, Shape.and.injEq] at h
  · exact Or.inl h
  · exact Or.inr h
  · exact Or.inr h.symm
  · exact Or.inl h.symm

/-- Every summary is that of its node, and a node is registered under its class and depth. -/
structure Consistent (h : StructuralHash) (nodes : Array Node) : Prop where
  numbered : Numbered h.classes
  summarized : ∀ (n : Nat) (m : Summary), h.summaries[n]? = some m →
    ∃ node shape, nodes[n]? = some node ∧ h.measure n node = .ok (shape, m.depth) ∧
      h.classes[shape]? = some m.structural
  registered : ∀ c d n : Nat, h.shallowest[c]? = some (d, n) →
    ∃ m, h.summaries[n]? = some m ∧ m.structural = c ∧ m.depth = d

theorem consistent_empty (nodes : Array Node) : Consistent empty nodes where
  numbered := numbered_empty
  summarized n m h := by simp [empty] at h
  registered c d n h := by simp [empty] at h

theorem Consistent.push {h : StructuralHash} {nodes : Array Node} (hc : h.Consistent nodes)
    (node : Node) : h.Consistent (nodes.push node) where
  numbered := hc.numbered
  summarized n m hm := by
    obtain ⟨node', shape, hnode, hmeasure, hclass⟩ := hc.summarized n m hm
    exact ⟨node', shape, getElem?_push_of_some hnode node, hmeasure, hclass⟩
  registered := hc.registered

theorem summary?_eq {h : StructuralHash} {n : Nat} {m : Summary} (hm : h.summaries[n]? = some m) :
    h.summary? n = .ok m := by
  simp [summary?, hm]

theorem measure_and {h : StructuralHash} {a b : Signal} {ma mb : Summary} (n : Nat)
    (ha : h.summaries[a.node]? = some ma) (hb : h.summaries[b.node]? = some mb) :
    h.measure n (.and a b) =
      .ok (gateShape (operandClass ma a) (operandClass mb b), max ma.depth mb.depth + 1) := by
  simp only [measure, summary?_eq ha, summary?_eq hb]
  rfl

theorem exists_summaries_of_measure {h : StructuralHash} {n : Nat} {a b : Signal}
    {r : Shape × Nat} (hm : h.measure n (.and a b) = .ok r) :
    ∃ ma mb, h.summaries[a.node]? = some ma ∧ h.summaries[b.node]? = some mb := by
  cases ha : h.summaries[a.node]? with
  | none => simp [measure, summary?, ha, bind, Except.bind] at hm
  | some ma =>
    cases hb : h.summaries[b.node]? with
    | none => simp [measure, summary?, ha, hb, bind, Except.bind] at hm
    | some mb => exact ⟨ma, mb, rfl, rfl⟩

theorem measure_and_of_ok {h : StructuralHash} {n depth : Nat} {a b : Signal} {shape : Shape}
    (hm : h.measure n (.and a b) = .ok (shape, depth)) :
    ∃ ma mb, h.summaries[a.node]? = some ma ∧ h.summaries[b.node]? = some mb ∧
      shape = gateShape (operandClass ma a) (operandClass mb b) ∧
      depth = max ma.depth mb.depth + 1 := by
  obtain ⟨ma, mb, ha, hb⟩ := exists_summaries_of_measure hm
  rw [measure_and n ha hb, Except.ok.injEq, Prod.mk.injEq] at hm
  exact ⟨ma, mb, ha, hb, hm.1.symm, hm.2.symm⟩

/-- Node `n` of the graph, if it is `node`, can have this shape. -/
def Describes (n : Nat) (node : Node) : Shape → Prop
  | .literal b => node = .literal b
  | .input k => k = n ∧ ∃ name, node = .input name
  | .and _ _ => ∃ a b, node = .and a b

theorem describes_gateShape {n : Nat} {node : Node} (a b : Signal) :
    Describes n node (gateShape a b) ↔ ∃ a b, node = .and a b := by
  rcases gateShape_eq a b with h | h <;> rw [h] <;> rfl

theorem describes_of_measure {h : StructuralHash} {n depth : Nat} {node : Node} {shape : Shape}
    (hm : h.measure n node = .ok (shape, depth)) : Describes n node shape := by
  cases node with
  | literal b =>
    obtain ⟨rfl, -⟩ := Prod.mk.inj (Except.ok.inj hm)
    rfl
  | input name =>
    obtain ⟨rfl, -⟩ := Prod.mk.inj (Except.ok.inj hm)
    exact ⟨rfl, name, rfl⟩
  | and a b =>
    obtain ⟨ma, mb, -, -, rfl, -⟩ := measure_and_of_ok hm
    exact (describes_gateShape _ _).mpr ⟨a, b, rfl⟩

/-- The summaries of the one hash are also those of the other. -/
def Extends (h h' : StructuralHash) : Prop :=
  ∀ (k : Nat) (m : Summary), h.summaries[k]? = some m → h'.summaries[k]? = some m

theorem Extends.measure {h h' : StructuralHash} (hext : h.Extends h') {n : Nat} {node : Node}
    {r : Shape × Nat} (hm : h.measure n node = .ok r) : h'.measure n node = .ok r := by
  cases node with
  | literal b => exact hm
  | input name => exact hm
  | and a b =>
    obtain ⟨ma, mb, ha, hb⟩ := exists_summaries_of_measure hm
    rw [measure_and n ha hb] at hm
    rw [measure_and n (hext _ _ ha) (hext _ _ hb), hm]

theorem Consistent.sameStructure {h : StructuralHash} {nodes : Array Node}
    (hc : h.Consistent nodes) {n k : Nat} {mn mk : Summary} (hn : h.summaries[n]? = some mn)
    (hk : h.summaries[k]? = some mk) (hclass : mn.structural = mk.structural) :
    SameStructure nodes n k := by
  -- The operands of a gate are less deep than the gate.
  induction hdepth : mn.depth using Nat.strongRecOn generalizing n k mn mk with
  | ind depth ih =>
    subst hdepth
    obtain ⟨node, shape, hnode, hmeasure, hshape⟩ := hc.summarized n mn hn
    obtain ⟨node', shape', hnode', hmeasure', hshape'⟩ := hc.summarized k mk hk
    rw [hclass] at hshape
    obtain rfl := hc.numbered.injective shape shape' _ hshape hshape'
    cases node with
    | literal b =>
      obtain ⟨rfl, -⟩ := Prod.mk.inj (Except.ok.inj hmeasure)
      obtain rfl := describes_of_measure hmeasure'
      exact .literal hnode hnode'
    | input name =>
      obtain ⟨rfl, -⟩ := Prod.mk.inj (Except.ok.inj hmeasure)
      obtain ⟨rfl, _⟩ := describes_of_measure hmeasure'
      exact .input hnode
    | and a b =>
      obtain ⟨ma, mb, ha, hb, rfl, hd⟩ := measure_and_of_ok hmeasure
      obtain ⟨c, d, rfl⟩ := (describes_gateShape _ _).mp (describes_of_measure hmeasure')
      obtain ⟨mc, md, hc', hd', hs', -⟩ := measure_and_of_ok hmeasure'
      have hma : ma.depth < mn.depth := by omega
      have hmb : mb.depth < mn.depth := by omega
      rcases gateShape_injective hs' with ⟨hac, hbd⟩ | ⟨had, hbc⟩
      · obtain ⟨hac, hac'⟩ := Signal.mk.inj hac
        obtain ⟨hbd, hbd'⟩ := Signal.mk.inj hbd
        exact .and hnode hnode' (ih _ hma ha hc' hac rfl) hac' (ih _ hmb hb hd' hbd rfl) hbd'
      · obtain ⟨had, had'⟩ := Signal.mk.inj had
        obtain ⟨hbc, hbc'⟩ := Signal.mk.inj hbc
        exact .swapped hnode hnode' (ih _ hma ha hd' had rfl) had' (ih _ hmb hb hc' hbc rfl) hbc'

theorem Consistent.measured {h : StructuralHash} {nodes : Array Node} (hc : h.Consistent nodes)
    {n : Nat} {m : Summary} (hn : h.summaries[n]? = some m) {node : Node}
    (hnode : nodes[n]? = some node) :
    ∃ shape, h.measure n node = .ok (shape, m.depth) ∧ h.classes[shape]? = some m.structural := by
  obtain ⟨node', shape, hnode', hmeasure, hclass⟩ := hc.summarized n m hn
  obtain rfl := Option.some.inj (hnode.symm.trans hnode')
  exact ⟨shape, hmeasure, hclass⟩

theorem Consistent.structural_eq {h : StructuralHash} {nodes : Array Node}
    (hc : h.Consistent nodes) {n k : Nat} (hsame : SameStructure nodes n k) {mn mk : Summary}
    (hn : h.summaries[n]? = some mn) (hk : h.summaries[k]? = some mk) :
    mn.structural = mk.structural := by
  induction hsame generalizing mn mk with
  | literal hn' hk' =>
    obtain ⟨shape, hmeasure, hshape⟩ := hc.measured hn hn'
    obtain ⟨shape', hmeasure', hshape'⟩ := hc.measured hk hk'
    obtain ⟨rfl, -⟩ := Prod.mk.inj (Except.ok.inj hmeasure)
    obtain ⟨rfl, -⟩ := Prod.mk.inj (Except.ok.inj hmeasure')
    exact Option.some.inj (hshape.symm.trans hshape')
  | input hn' => rw [Option.some.inj (hn.symm.trans hk)]
  | and hn' hk' _ hac' _ hbd' hac hbd =>
    obtain ⟨shape, hmeasure, hshape⟩ := hc.measured hn hn'
    obtain ⟨shape', hmeasure', hshape'⟩ := hc.measured hk hk'
    obtain ⟨ma, mb, ha, hb, rfl, -⟩ := measure_and_of_ok hmeasure
    obtain ⟨mc, md, hc', hd', rfl, -⟩ := measure_and_of_ok hmeasure'
    simp only [operandClass, hac ha hc', hbd hb hd', hac', hbd'] at hshape
    exact Option.some.inj (hshape.symm.trans hshape')
  | swapped hn' hk' _ had' _ hbc' had hbc =>
    obtain ⟨shape, hmeasure, hshape⟩ := hc.measured hn hn'
    obtain ⟨shape', hmeasure', hshape'⟩ := hc.measured hk hk'
    obtain ⟨ma, mb, ha, hb, rfl, -⟩ := measure_and_of_ok hmeasure
    obtain ⟨mc, md, hc', hd', rfl, -⟩ := measure_and_of_ok hmeasure'
    rw [gateShape_comm] at hshape
    simp only [operandClass, had ha hd', hbc hb hc', had', hbc'] at hshape
    exact Option.some.inj (hshape.symm.trans hshape')

theorem Consistent.hasDepth {h : StructuralHash} {nodes : Array Node} (hc : h.Consistent nodes)
    {n : Nat} {m : Summary} (hn : h.summaries[n]? = some m) : HasDepth nodes n m.depth := by
  induction hdepth : m.depth using Nat.strongRecOn generalizing n m with
  | ind depth ih =>
    subst hdepth
    obtain ⟨node, shape, hnode, hmeasure, -⟩ := hc.summarized n m hn
    cases node with
    | literal b =>
      rw [← (Prod.mk.inj (Except.ok.inj hmeasure)).2]
      exact .literal hnode
    | input name =>
      rw [← (Prod.mk.inj (Except.ok.inj hmeasure)).2]
      exact .input hnode
    | and a b =>
      obtain ⟨ma, mb, ha, hb, -, hd⟩ := measure_and_of_ok hmeasure
      rw [hd]
      exact .and hnode (ih _ (by omega) ha rfl) (ih _ (by omega) hb rfl)

theorem Consistent.depth_eq {h : StructuralHash} {nodes : Array Node} (hc : h.Consistent nodes)
    {n k : Nat} {mn mk : Summary} (hn : h.summaries[n]? = some mn)
    (hk : h.summaries[k]? = some mk) (hclass : mn.structural = mk.structural) :
    mn.depth = mk.depth :=
  ((hc.sameStructure hn hk hclass).hasDepth (hc.hasDepth hn)).unique (hc.hasDepth hk)

theorem getElem?_record {h : StructuralHash} {n depth : Nat} {shape : Shape} (k : Nat) :
    (h.record n shape depth).summaries[k]? =
      if n = k then some ⟨depth, h.classOf shape⟩ else h.summaries[k]? := by
  simp [record, Std.HashMap.getElem?_insert]

theorem extends_record {h : StructuralHash} {n depth : Nat} {shape : Shape}
    (hn : h.summaries[n]? = none) : h.Extends (h.record n shape depth) := by
  intro k m hk
  rw [getElem?_record, if_neg, hk]
  rintro rfl
  simp [hn] at hk

theorem exists_summary_of_contains {h : StructuralHash} {n : Nat}
    (hn : h.summaries.contains n = true) : ∃ m, h.summaries[n]? = some m := by
  rwa [Std.HashMap.contains_eq_isSome_getElem?, Option.isSome_iff_exists] at hn

theorem Consistent.record {h : StructuralHash} {nodes : Array Node} (hc : h.Consistent nodes)
    {n depth : Nat} {node : Node} {shape : Shape} (hnode : nodes[n]? = some node)
    (hn : h.summaries[n]? = none) (hmeasure : h.measure n node = .ok (shape, depth)) :
    (h.record n shape depth).Consistent nodes := by
  have hext : h.Extends (h.record n shape depth) := extends_record hn
  have hclasses : ∀ s : Shape, (h.record n shape depth).classes[s]? =
      if shape = s then some (h.classOf shape) else h.classes[s]? :=
    getElem?_insertIfNew h.classes shape
  constructor
  · exact hc.numbered.insertIfNew shape
  · intro k m hk
    rw [getElem?_record] at hk
    split_ifs at hk with hkn
    · subst hkn
      obtain rfl := Option.some.inj hk
      refine ⟨node, shape, hnode, hext.measure hmeasure, ?_⟩
      rw [hclasses, if_pos rfl]
    · obtain ⟨node', shape', hnode', hmeasure', hclass⟩ := hc.summarized k m hk
      refine ⟨node', shape', hnode', hext.measure hmeasure', ?_⟩
      rw [hclasses]
      split_ifs with hs
      · subst hs
        rw [classOf, hclass, Option.getD_some]
      · exact hclass
  · intro c d k hk
    obtain ⟨m, hm, hmc⟩ := hc.registered c d k hk
    exact ⟨m, hext k m hm, hmc⟩

theorem exists_measure {h : StructuralHash} {nodes : Array Node} {n : Nat} {node : Node}
    (hnode : nodes[n]? = some node)
    (hbelow : ∀ k ∈ faninsOf nodes n, ∃ m, h.summaries[k]? = some m) :
    ∃ shape depth, h.measure n node = .ok (shape, depth) := by
  rw [faninsOf_eq hnode] at hbelow
  cases node with
  | literal b => exact ⟨_, _, rfl⟩
  | input name => exact ⟨_, _, rfl⟩
  | and a b =>
    obtain ⟨ma, ha⟩ := hbelow a.node (by simp [Node.fanins])
    obtain ⟨mb, hb⟩ := hbelow b.node (by simp [Node.fanins])
    exact ⟨_, _, measure_and n ha hb⟩

/-- After a part of a walk just its nodes have become summarized. -/
structure Summarizes (h : StructuralHash) (nodes : Array Node) (order : List Nat)
    (h' : StructuralHash) : Prop where
  consistent : h'.Consistent nodes
  keeps : h.Extends h'
  shallowest : h'.shallowest = h.shallowest
  new : ∀ k ∈ order, ∃ m, h'.summaries[k]? = some m
  others : ∀ k, h.summaries[k]? = none → k ∉ order → h'.summaries[k]? = none

theorem Summarizes.nil {h : StructuralHash} {nodes : Array Node} (hc : h.Consistent nodes) :
    Summarizes h nodes [] h where
  consistent := hc
  keeps _ _ hk := hk
  shallowest := rfl
  new := by simp
  others _ hk _ := hk

theorem Summarizes.concat {h h' : StructuralHash} {nodes : Array Node} {order : List Nat} {n : Nat}
    (hrun : Summarizes h nodes order h') (hn : n < nodes.size) (hold : h.summaries[n]? = none)
    (hnew : n ∉ order)
    (hbelow : ∀ k ∈ faninsOf nodes n, h.summaries.contains k = true ∨ k ∈ order) :
    ∃ h'', summarizeNode nodes h' n = .ok h'' ∧ Summarizes h nodes (order ++ [n]) h'' := by
  have hnode : nodes[n]? = some nodes[n] := Array.getElem?_eq_getElem hn
  have hready : ∀ k ∈ faninsOf nodes n, ∃ m, h'.summaries[k]? = some m := by
    intro k hk
    rcases hbelow k hk with hk | hk
    · obtain ⟨m, hm⟩ := exists_summary_of_contains hk
      exact ⟨m, hrun.keeps k m hm⟩
    · exact hrun.new k hk
  obtain ⟨shape, depth, hmeasure⟩ := exists_measure hnode hready
  have hnone := hrun.others n hold hnew
  have hext : h'.Extends (h'.record n shape depth) := extends_record hnone
  refine ⟨h'.record n shape depth, ?_, hrun.consistent.record hnode hnone hmeasure, ?_,
    hrun.shallowest, ?_, ?_⟩
  · rw [summarizeNode, node?_eq hnode]
    simp only [bind, Except.bind, hmeasure]
    rfl
  · exact fun k m hk => hext k m (hrun.keeps k m hk)
  · intro k hk
    rcases List.mem_append.mp hk with hk | hk
    · obtain ⟨m, hm⟩ := hrun.new k hk
      exact ⟨m, hext k m hm⟩
    · obtain rfl := List.mem_singleton.mp hk
      exact ⟨_, by rw [getElem?_record, if_pos rfl]⟩
  · intro k hk hmem
    rw [List.mem_append, List.mem_singleton, not_or] at hmem
    rw [getElem?_record, if_neg (Ne.symm hmem.2), hrun.others k hk hmem.1]

/-- The summary of a node has been found, and what was known before has been kept. -/
structure Finds (h : StructuralHash) (nodes : Array Node) (n : Nat) (m : Summary)
    (h' : StructuralHash) : Prop where
  consistent : h'.Consistent nodes
  keeps : h.Extends h'
  shallowest : h'.shallowest = h.shallowest
  summary : h'.summaries[n]? = some m

variable {h : StructuralHash} {nodes : Array Node} {rank : Nat → Nat} {n : Nat}

theorem Consistent.summarize (hc : h.Consistent nodes) (G : RankedBy nodes rank)
    (hn : n < nodes.size) :
    ∃ m h', h.summarize nodes n = .ok (m, h') ∧ h.Finds nodes n m h' := by
  have hroots : ∀ k ∈ [n], k < nodes.size := by simpa using hn
  obtain ⟨order, horder, htop, hroot⟩ :=
    G.postOrder_topological (h.summaries.contains ·) hroots
  obtain ⟨h', hrun, hsum⟩ := htop.foldlM_ok (f := summarizeNode nodes) (P := Summarizes h nodes)
    (Summarizes.nil hc) (by
      intro order k h' hrun hk hdone hnew hbelow
      refine hrun.concat hk ?_ hnew hbelow
      rwa [Std.HashMap.contains_eq_isSome_getElem?, Option.isSome_eq_false_iff,
        Option.isNone_iff_eq_none] at hdone)
  have hfinal : ∃ m, h'.summaries[n]? = some m := by
    rcases hroot n List.mem_cons_self with hdone | hmem
    · obtain ⟨m, hm⟩ := exists_summary_of_contains hdone
      exact ⟨m, hsum.keeps n m hm⟩
    · exact hsum.new n hmem
  obtain ⟨m, hm⟩ := hfinal
  refine ⟨m, h', ?_, hsum.consistent, hsum.keeps, hsum.shallowest, hm⟩
  unfold StructuralHash.summarize postOrder
  rw [horder]
  simp only [bind, Except.bind, hrun, summary?_eq hm]
  rfl

/-- As all nodes of a class are equally deep, depth never keeps a registered node from answering. -/
theorem Consistent.known?_eq (hc : h.Consistent nodes) {m : Summary}
    (hm : h.summaries[n]? = some m) :
    h.known? m = (h.shallowest[m.structural]?).map (·.2) := by
  unfold known?
  cases hread : h.shallowest[m.structural]? with
  | none => rfl
  | some entry =>
    obtain ⟨d, k⟩ := entry
    obtain ⟨mk, hk, hclass, rfl⟩ := hc.registered _ d k hread
    have hdepth : mk.depth ≤ m.depth := Nat.le_of_eq (hc.depth_eq hk hm hclass)
    exact if_pos hdepth

theorem getElem?_register {m : Summary} (c : Nat) :
    (h.register n m).shallowest[c]? =
      if m.structural = c then some (m.depth, n) else h.shallowest[c]? := by
  simp [register, Std.HashMap.getElem?_insert]

theorem Consistent.register (hc : h.Consistent nodes) {m : Summary}
    (hm : h.summaries[n]? = some m) : (h.register n m).Consistent nodes where
  numbered := hc.numbered
  summarized := hc.summarized
  registered c d k hk := by
    rw [getElem?_register] at hk
    split_ifs at hk with hclass
    · obtain ⟨rfl, rfl⟩ := Prod.mk.inj (Option.some.inj hk)
      exact ⟨m, hm, hclass, rfl⟩
    · exact hc.registered c d k hk

/-- What a feed answers, and what the hash is afterwards: the node that stands for the class, or
none and the fed node stands for it from then on. -/
inductive Feeds (n : Nat) (m : Summary) (h : StructuralHash) : Option Nat → StructuralHash → Prop
  | known {d k : Nat} (hk : h.shallowest[m.structural]? = some (d, k)) : Feeds n m h (some k) h
  | new (hnone : h.shallowest[m.structural]? = none) : Feeds n m h none (h.register n m)

theorem Consistent.feeds (hc : h.Consistent nodes) (G : RankedBy nodes rank)
    (hn : n < nodes.size) :
    ∃ m h' known h'', h.Finds nodes n m h' ∧ Feeds n m h' known h'' ∧
      h.feed nodes n = .ok (known, h'') := by
  obtain ⟨m, h', hsum, hfinds⟩ := hc.summarize G hn
  have hknown := hfinds.consistent.known?_eq hfinds.summary
  cases hread : h'.shallowest[m.structural]? with
  | none =>
    refine ⟨m, h', none, _, hfinds, .new hread, ?_⟩
    rw [hread] at hknown
    simp only [StructuralHash.feed, bind, Except.bind, hsum, hknown]
    rfl
  | some entry =>
    refine ⟨m, h', some entry.2, h', hfinds, .known hread, ?_⟩
    rw [hread] at hknown
    simp only [StructuralHash.feed, bind, Except.bind, hsum, hknown]
    rfl

theorem Feeds.consistent {m : Summary} {h' h'' : StructuralHash} {known : Option Nat}
    (hfeeds : Feeds n m h' known h'') (hfinds : h.Finds nodes n m h') : h''.Consistent nodes := by
  cases hfeeds with
  | known hk => exact hfinds.consistent
  | new hnone => exact hfinds.consistent.register hfinds.summary

theorem Feeds.sameStructure {m : Summary} {h' h'' : StructuralHash} {known : Option Nat}
    (hfeeds : Feeds n m h' known h'') (hfinds : h.Finds nodes n m h') :
    ∀ k, known = some k → k < nodes.size ∧ SameStructure nodes k n := by
  rintro k rfl
  cases hfeeds with
  | known hread =>
    obtain ⟨mk, hk, hclass, -⟩ := hfinds.consistent.registered _ _ k hread
    obtain ⟨node, -, hnode, -⟩ := hfinds.consistent.summarized k mk hk
    exact ⟨(Array.getElem?_eq_some_iff.mp hnode).1,
      hfinds.consistent.sameStructure hk hfinds.summary hclass⟩

end StructuralHash

end Aig
end LogicResynthesis
