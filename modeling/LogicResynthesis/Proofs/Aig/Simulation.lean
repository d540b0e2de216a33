import Mathlib.Data.List.Permutation
import LogicResynthesis.Proofs.Aig.Semantics
import LogicResynthesis.Proofs.Fault
import LogicResynthesis.Proofs.Xag.Simulation

/-!
# Simulation agrees with evaluation

A netlist in creation order is simulated without a fault, and each row of the
function of a signal is the value that evaluation finds on that row of the leaves.
Both run through the nodes by the same recursion: simulation for all rows at
once but only up to the signal, evaluation for one row and for all nodes.
-/

namespace LogicResynthesis
namespace Aig

open Xag (readTable row_readTable)

theorem row_bound (inputs : List Port) (leaves : List Table4) (n : Nat) (x : Assignment) :
    (bound Table4.complementIf inputs leaves n).map (·.row x) =
      bound (· ^^ ·) inputs (leaves.map (·.row x)) n := by
  unfold bound
  rw [List.zip_map_right, ← List.map_reverse, List.find?_map, Option.map_map, Option.map_map]
  congr 1
  funext p
  exact Table4.row_complementIf p.2 p.1.signal.negated x

/-- The function of an input node; one that has no leaf is constant `false`. -/
def leafTable (inputs : List Port) (leaves : List Table4) (n : Nat) : Table4 :=
  (bound Table4.complementIf inputs leaves n).getD .zero

theorem row_leafTable (inputs : List Port) (leaves : List Table4) (n : Nat) (x : Assignment) :
    (leafTable inputs leaves n).row x =
      (bound (· ^^ ·) inputs (leaves.map (·.row x)) n).getD false := by
  rw [← row_bound, leafTable]
  cases bound Table4.complementIf inputs leaves n with
  | none => exact Table4.row_zero x
  | some f => rfl

/-- The function of a node, given those of the earlier nodes and of the inputs by their nodes. -/
def entryTable (inputTable : Nat → Table4) (tables : Array Table4) : Node → Table4
  | .literal b => Table4.zero.complementIf b
  | .input _ => inputTable tables.size
  | .and a b => (readTable tables a).conj (readTable tables b)

theorem row_entryTable (inputTable : Nat → Table4) (x : Assignment) (tables : Array Table4)
    (node : Node) :
    entryValue (fun n => (inputTable n).row x) (tables.map (·.row x)) node =
      (entryTable inputTable tables node).row x := by
  cases node with
  | literal b => rw [entryValue, entryTable, Table4.row_complementIf, Table4.row_zero, Bool.false_xor]
  | input name => rw [entryValue, entryTable, Array.size_map]
  | and a b => rw [entryTable, Table4.row_conj, row_readTable, row_readTable, entryValue]

section Simulate

variable {nodes : Array Node} (inputs : List Port) (leaves : List Table4)

/-- The functions of all nodes. -/
def tables (nodes : Array Node) : Array Table4 :=
  tabulate (entryTable (leafTable inputs leaves)) nodes.toList

theorem row_tables (x : Assignment) :
    (tables inputs leaves nodes).map (·.row x) =
      tabulate (entryValue fun n => (bound (· ^^ ·) inputs (leaves.map (·.row x)) n).getD false)
        nodes.toList := by
  rw [tables, map_tabulate (row_entryTable _ x)]
  simp only [row_leafTable]

theorem read?_of_lt_size {tables : Array Table4} {s : Signal} (h : s.node < tables.size) :
    Simulation.read? tables s = .ok (readTable tables s) := by
  simp [Simulation.read?, readTable, Array.getElem?_eq_getElem h, Array.getD_eq_getD_getElem?]

theorem nodeTable?_eq (hordered : Ordered nodes) {n : Nat} {node : Node}
    (hnode : nodes[n]? = some node) {tables : Array Table4} (hsize : tables.size = n) :
    Simulation.nodeTable? (bound Table4.complementIf inputs leaves) tables node =
      .ok (entryTable (leafTable inputs leaves) tables node) := by
  cases node with
  | literal b => rfl
  | input name => rfl
  | and a b =>
    obtain ⟨ha, hb⟩ := hordered.operands_lt hnode
    rw [← hsize] at ha hb
    rw [Simulation.nodeTable?, read?_of_lt_size ha, read?_of_lt_size hb]
    rfl

theorem simulate_eq (hordered : Ordered nodes) {s : Signal} (hs : s.node < nodes.size) :
    simulate nodes inputs leaves s = .ok (readTable (tables inputs leaves nodes) s) := by
  have hseen : (nodes.toList.take (s.node + 1)).length = s.node + 1 :=
    List.length_take_of_le (by simpa using Nat.succ_le_of_lt hs)
  have hrun : (nodes.toList.take (s.node + 1)).foldlM (fun tables node => do
        return tables.push
          (← Simulation.nodeTable? (bound Table4.complementIf inputs leaves) tables node)) #[] =
      .ok (tabulate (entryTable (leafTable inputs leaves)) (nodes.toList.take (s.node + 1))) := by
    apply foldlM_eq_tabulate
    intro n node hn
    obtain ⟨hlt, -⟩ := List.getElem?_eq_some_iff.mp hn
    have hnode : nodes[n]? = some node := by
      rw [List.getElem?_take_of_lt (hseen ▸ hlt), Array.getElem?_toList] at hn
      exact hn
    apply nodeTable?_eq inputs leaves hordered hnode
    rw [size_tabulate, List.length_take_of_le (Nat.le_of_lt hlt)]
  have hsame := getElem?_tabulate_take (entryTable (leafTable inputs leaves)) nodes.toList
    (Nat.lt_succ_self s.node) (by simpa using Nat.succ_le_of_lt hs)
  rw [simulate, if_neg (Nat.not_le.mpr hs), hrun]
  refine (read?_of_lt_size ?_).trans ?_
  · rw [size_tabulate, hseen]
    exact Nat.lt_succ_self _
  · rw [readTable, readTable, Array.getD_eq_getD_getElem?, hsame, ← Array.getD_eq_getD_getElem?]
    rfl

end Simulate

def Evaluation.value (e : Evaluation) (s : Signal) : Bool := readValue e.nodes s

namespace Netlist

variable {g : Netlist}

/-- The values of all nodes, when the inputs have the given ones. -/
def valuesAt (g : Netlist) (values : List Bool) : Array Bool :=
  tabulate (entryValue fun n => (bound (· ^^ ·) g.inputs.toList values n).getD false) g.nodes.toList

theorem eval_eq (hordered : Ordered g.nodes) {values : List Bool}
    (hlength : values.length = g.inputs.size) :
    g.eval values =
      (g.outputs.toList.mapM fun p => Evaluation.read? g.nodes.size (g.valuesAt values) p.signal).map
        fun outputs => ⟨outputs, g.valuesAt values⟩ := by
  rw [eval, if_neg (not_not.mpr hlength), nodeValues?_eq hordered]
  change (g.outputs.toList.mapM fun p =>
    Evaluation.read? g.nodes.size (g.valuesAt values) p.signal) >>= _ = _
  cases g.outputs.toList.mapM fun p =>
    Evaluation.read? g.nodes.size (g.valuesAt values) p.signal <;> rfl

theorem exists_ok_of_mapM {α β : Type} {f : α → Except Fault β} {xs : List α} {ys : List β}
    (h : xs.mapM f = .ok ys) : ∀ x ∈ xs, ∃ y, f x = .ok y := by
  induction xs generalizing ys with
  | nil => simp
  | cons x xs ih =>
    rw [List.mapM_cons] at h
    obtain ⟨y, hy, h⟩ := bind_eq_ok.mp h
    obtain ⟨later, hlater, -⟩ := bind_eq_ok.mp h
    intro x' hx'
    rcases List.mem_cons.mp hx' with rfl | hx'
    · exact ⟨y, hy⟩
    · exact ih hlater x' hx'

theorem lt_of_read?_ok {size : Nat} {values : Array Bool} {s : Signal} {v : Bool}
    (h : Evaluation.read? size values s = .ok v) : s.node < size := by
  by_contra hs
  rw [Evaluation.read?, if_neg hs] at h
  cases h

theorem eval_ok_iff (hordered : Ordered g.nodes) {values : List Bool}
    (hlength : values.length = g.inputs.size) (e : Evaluation) :
    g.eval values = .ok e ↔ (∀ p ∈ g.outputs.toList, p.signal.node < g.nodes.size) ∧
      e = ⟨g.outputs.toList.map fun p => readValue (g.valuesAt values) p.signal,
        g.valuesAt values⟩ := by
  rw [eval_eq hordered hlength, map_eq_ok]
  constructor
  · rintro ⟨outputs, houtputs, rfl⟩
    have hlt : ∀ p ∈ g.outputs.toList, p.signal.node < g.nodes.size := by
      intro p hp
      obtain ⟨v, hv⟩ := exists_ok_of_mapM houtputs p hp
      exact lt_of_read?_ok hv
    refine ⟨hlt, ?_⟩
    rw [Except.ok.inj (houtputs.symm.trans (mapM_eq_ok fun p hp => read?_of_lt (hlt p hp)))]
  · rintro ⟨hlt, rfl⟩
    exact ⟨_, mapM_eq_ok fun p hp => read?_of_lt (hlt p hp), rfl⟩

/-- A row of the simulated function of a signal is the value that evaluation on the row of the
leaves finds, whatever nodes the input entries name. Simulation never fails for a signal of the
netlist, and evaluation fails only if an output names no node. -/
theorem simulation_agrees (hordered : Ordered g.nodes) {leaves : List Table4}
    (hleaves : leaves.length = g.inputs.size) :
    (∀ s : Signal, s.node < g.nodes.size →
      ∃ f, simulate g.nodes g.inputs.toList leaves s = .ok f ∧
        ∀ x e, g.eval (leaves.map (·.row x)) = .ok e → f.row x = e.value s) ∧
    ∀ x, ((∃ e, g.eval (leaves.map (·.row x)) = .ok e) ↔
        ∀ p ∈ g.outputs.toList, p.signal.node < g.nodes.size) ∧
      ∀ e, g.eval (leaves.map (·.row x)) = .ok e →
        e.nodes.size = g.nodes.size ∧ e.outputs = g.outputs.toList.map fun p => e.value p.signal := by
  have hlength (x : Assignment) : (leaves.map (·.row x)).length = g.inputs.size := by
    rw [List.length_map, hleaves]
  refine ⟨fun s hs => ⟨_, simulate_eq g.inputs.toList leaves hordered hs, fun x e he => ?_⟩,
    fun x => ⟨?_, fun e he => ?_⟩⟩
  · obtain ⟨-, rfl⟩ := (eval_ok_iff hordered (hlength x) e).mp he
    rw [row_readTable, row_tables]
    rfl
  · simp only [eval_ok_iff hordered (hlength x), exists_and_left, exists_eq, and_true]
  · obtain ⟨-, rfl⟩ := (eval_ok_iff hordered (hlength x) e).mp he
    exact ⟨by simp [valuesAt], rfl⟩

/-- The entries name one input twice, once complemented, and a gate. -/
def entangled : Netlist where
  name := "entangled"
  inputs := #[⟨"a", ⟨1, false⟩⟩, ⟨"b", ⟨2, false⟩⟩, ⟨"c", ⟨1, true⟩⟩, ⟨"d", ⟨3, false⟩⟩]
  outputs := #[⟨"o", ⟨4, true⟩⟩]
  nodes := #[.literal false, .input "a", .input "b", .and ⟨1, false⟩ ⟨2, true⟩,
    .and ⟨3, true⟩ ⟨1, false⟩]

theorem ordered_entangled : Ordered entangled.nodes := by
  intro n node hn s hs
  rcases n with _ | _ | _ | _ | _ | n <;> simp [entangled] at hn <;> subst hn <;>
    simp [Node.fanins] at hs <;> rcases hs with rfl | rfl <;> decide

/-- The last entry for an input counts, complemented; the entry for a gate does not. So the output
is `c ∨ ¬b`. -/
theorem simulation_agrees_entangled :
    Ordered entangled.nodes ∧
      simulate entangled.nodes entangled.inputs.toList ((List.finRange 4).map Table4.projection)
        ⟨4, true⟩ = .ok ⟨0xf3f3⟩ ∧
      (∃ e, entangled.eval [false, true, false, false] = .ok e ∧ e.value ⟨4, true⟩ = false ∧
        e.outputs = [false]) ∧
      ∃ e, entangled.eval [true, false, false, true] = .ok e ∧ e.value ⟨4, true⟩ = true ∧
        e.outputs = [true] := by
  have hleaves : ((List.finRange 4).map Table4.projection).length = entangled.inputs.size := rfl
  obtain ⟨hsimulate, hevals⟩ := simulation_agrees ordered_entangled hleaves
  obtain ⟨f, hf, hrows⟩ := hsimulate ⟨4, true⟩ (by decide)
  have hvalue : simulate entangled.nodes entangled.inputs.toList
      ((List.finRange 4).map Table4.projection) ⟨4, true⟩ = .ok ⟨0xf3f3⟩ := by
    cbv
  obtain rfl := Except.ok.inj (hf.symm.trans hvalue)
  have hrow : ∀ x : Assignment, ((List.finRange 4).map Table4.projection).map (·.row x) =
      (List.finRange 4).map x.input := by
    intro x
    simp only [List.map_map, Function.comp_def, Table4.row_projection]
  have heval : ∀ (x : Assignment) (v : Bool), Table4.row ⟨0xf3f3⟩ x = v →
      ∃ e, entangled.eval ((List.finRange 4).map x.input) = .ok e ∧ e.value ⟨4, true⟩ = v ∧
        e.outputs = [v] := by
    intro x v hv
    obtain ⟨hok, houtputs⟩ := hevals x
    obtain ⟨e, he⟩ := hok.mpr (by simp [entangled])
    have hagrees : e.value ⟨4, true⟩ = v := (hrows x e he).symm.trans hv
    exact ⟨e, hrow x ▸ he, hagrees, hagrees ▸ (houtputs e he).2⟩
  exact ⟨ordered_entangled, hvalue, heval 2 false (by decide), heval 9 true (by decide)⟩

end Netlist
end Aig
end LogicResynthesis
