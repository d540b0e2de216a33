import Mathlib.Data.List.Induction
import Mathlib.Data.List.TakeDrop
import LogicResynthesis.Proofs.Dag.DepthFirst
import LogicResynthesis.Signal

/-!
# Graphs in creation order

Evaluation, simulation and their like compute one entry for each node of a
graph, in creation order and from the entries of the earlier nodes. An entry
does not change when further nodes are created. If every node comes after its
fanins, the entries are those that the fanins call for.
-/

namespace LogicResynthesis

variable {ν β ε : Type}

/-- The table of a list of nodes. -/
def tabulate (entry : Array β → ν → β) (nodes : List ν) : Array β :=
  nodes.foldl (fun table node => table.push (entry table node)) #[]

variable (entry : Array β → ν → β)

theorem tabulate_concat (nodes : List ν) (node : ν) :
    tabulate entry (nodes ++ [node]) =
      (tabulate entry nodes).push (entry (tabulate entry nodes) node) := by
  simp [tabulate]

@[simp] theorem size_tabulate (nodes : List ν) : (tabulate entry nodes).size = nodes.length := by
  induction nodes using List.reverseRecOn with
  | nil => rfl
  | append_singleton nodes node ih => rw [tabulate_concat, Array.size_push, ih, List.length_append,
      List.length_singleton]

theorem tabulate_congr {entry entry' : Array β → ν → β} (nodes : List ν)
    (h : ∀ table node, table.size < nodes.length → entry' table node = entry table node) :
    tabulate entry' nodes = tabulate entry nodes := by
  induction nodes using List.reverseRecOn with
  | nil => rfl
  | append_singleton nodes node ih =>
    rw [List.length_append, List.length_singleton] at h
    have hbefore := ih fun table node' hsize => h table node' (Nat.lt_succ_of_lt hsize)
    rw [tabulate_concat, tabulate_concat, hbefore, h]
    rw [size_tabulate]
    exact Nat.lt_succ_self _

theorem getElem?_tabulate_append (nodes more : List ν) {n : Nat} (hn : n < nodes.length) :
    (tabulate entry (nodes ++ more))[n]? = (tabulate entry nodes)[n]? := by
  induction more using List.reverseRecOn with
  | nil => rw [List.append_nil]
  | append_singleton more node ih =>
    rw [← List.append_assoc, tabulate_concat, Array.getElem?_push_lt, ← ih,
      Array.getElem?_eq_getElem]
    rw [size_tabulate, List.length_append]
    omega

theorem getElem?_tabulate {nodes : List ν} {n : Nat} {node : ν} (h : nodes[n]? = some node) :
    (tabulate entry nodes)[n]? = some (entry (tabulate entry (nodes.take n)) node) := by
  induction nodes using List.reverseRecOn with
  | nil => simp at h
  | append_singleton nodes last ih =>
    rcases Nat.lt_or_ge n nodes.length with hn | hn
    · rw [List.getElem?_append_left hn] at h
      rw [getElem?_tabulate_append _ _ _ hn, List.take_append_of_le_length (Nat.le_of_lt hn)]
      exact ih h
    · have hlast := (List.getElem?_eq_some_iff.mp h).1
      rw [List.length_append, List.length_singleton] at hlast
      obtain rfl : n = nodes.length := by omega
      rw [List.getElem?_concat_length, Option.some.injEq] at h
      rw [List.take_left, tabulate_concat, ← size_tabulate entry nodes, Array.getElem?_push_size, h]

theorem getElem?_tabulate_take (nodes : List ν) {m n : Nat} (hmn : m < n) (hn : n ≤ nodes.length) :
    (tabulate entry (nodes.take n))[m]? = (tabulate entry nodes)[m]? := by
  conv_rhs => rw [← List.take_append_drop n nodes]
  rw [getElem?_tabulate_append]
  rw [List.length_take_of_le hn]
  exact hmn

/-- A computation that may fail fills the table if it gives every entry. -/
theorem foldlM_eq_tabulate {compute : Array β → ν → Except ε β} (nodes : List ν)
    (h : ∀ n node, nodes[n]? = some node →
      compute (tabulate entry (nodes.take n)) node =
        .ok (entry (tabulate entry (nodes.take n)) node)) :
    nodes.foldlM (fun table node => do return table.push (← compute table node)) #[] =
      .ok (tabulate entry nodes) := by
  induction nodes using List.reverseRecOn with
  | nil => rfl
  | append_singleton nodes node ih =>
    have hbefore :
        nodes.foldlM (fun table node => do return table.push (← compute table node)) #[] =
          .ok (tabulate entry nodes) := by
      apply ih
      intro n node' hnode
      have hn := (List.getElem?_eq_some_iff.mp hnode).1
      have hfull := h n node' (by rw [List.getElem?_append_left hn, hnode])
      rwa [List.take_append_of_le_length (Nat.le_of_lt hn)] at hfull
    have hlast := h nodes.length node (by simp)
    rw [List.take_left] at hlast
    rw [List.foldlM_append, hbefore, tabulate_concat]
    simp only [bind, Except.bind, List.foldlM_cons, hlast]
    rfl

theorem map_tabulate {γ : Type} {f : β → γ} {entry : Array β → ν → β} {entry' : Array γ → ν → γ}
    (h : ∀ table node, entry' (table.map f) node = f (entry table node)) (nodes : List ν) :
    (tabulate entry nodes).map f = tabulate entry' nodes := by
  induction nodes using List.reverseRecOn with
  | nil => exact Array.map_empty
  | append_singleton nodes node ih =>
    rw [tabulate_concat, tabulate_concat, Array.map_push, ← h, ih]

section SignalValue

/-- The value of a signal, given those of the nodes. -/
def readValue (values : Array Bool) (s : Signal) : Bool := values.getD s.node false ^^ s.negated

/-- The value of a signal of a graph whose nodes have the values that `entry` makes of those of
the earlier nodes. -/
def signalValue (entry : Array Bool → ν → Bool) (nodes : Array ν) (s : Signal) : Bool :=
  readValue (tabulate entry nodes.toList) s

variable (entry : Array Bool → ν → Bool) {nodes : Array ν}

theorem signalValue_complement (s : Signal) :
    signalValue entry nodes s.complement = !signalValue entry nodes s := by
  simp [signalValue, readValue, Signal.complement]

theorem signalValue_complementIf (s : Signal) (b : Bool) :
    signalValue entry nodes (s.complementIf b) = (signalValue entry nodes s ^^ b) := by
  simp [signalValue, readValue, Signal.complementIf]

theorem signalValue_eq_ofNode (s : Signal) :
    signalValue entry nodes s = (signalValue entry nodes (.ofNode s.node) ^^ s.negated) := by
  simp [signalValue, readValue, Signal.ofNode]

theorem signalValue_ofNode {n : Nat} {node : ν} (h : nodes[n]? = some node) :
    signalValue entry nodes (.ofNode n) = entry (tabulate entry (nodes.toList.take n)) node := by
  have hlisted : nodes.toList[n]? = some node := by simpa using h
  have hentry := getElem?_tabulate entry hlisted
  simp [signalValue, readValue, Signal.ofNode, Array.getD_eq_getD_getElem?, hentry]

theorem readValue_take {n : Nat} {node : ν} (h : nodes[n]? = some node) {s : Signal}
    (hs : s.node < n) :
    readValue (tabulate entry (nodes.toList.take n)) s = signalValue entry nodes s := by
  have hn := Nat.le_of_lt (Array.getElem?_eq_some_iff.mp h).1
  have hentry := getElem?_tabulate_take entry nodes.toList hs (by simpa using hn)
  simp only [signalValue, readValue, Array.getD_eq_getD_getElem?, hentry]

theorem signalValue_of_prefix {entry entry' : Array Bool → ν → Bool} {nodes nodes' : Array ν}
    (h : nodes.toList <+: nodes'.toList)
    (hentry : ∀ table node, table.size < nodes.size → entry' table node = entry table node)
    {s : Signal} (hs : s.node < nodes.size) :
    signalValue entry' nodes' s = signalValue entry nodes s := by
  obtain ⟨more, hmore⟩ := h
  have hsame : tabulate entry' nodes.toList = tabulate entry nodes.toList :=
    tabulate_congr _ (by simpa using hentry)
  have hrow := getElem?_tabulate_append entry' nodes.toList more (by simpa using hs)
  rw [hsame] at hrow
  simp only [signalValue, readValue, Array.getD_eq_getD_getElem?, ← hmore, hrow]

end SignalValue

section InOrder

variable {fanins : ν → List Signal} {nodes : Array ν}

/-- Every node comes after its fanins. -/
def InOrder (fanins : ν → List Signal) (nodes : Array ν) : Prop :=
  ∀ (n : Nat) (node : ν), nodes[n]? = some node → ∀ s ∈ fanins node, s.node < n

theorem getElem?_push_of_some {n : Nat} {node : ν} (h : nodes[n]? = some node) (last : ν) :
    (nodes.push last)[n]? = some node := by
  have hn := (Array.getElem?_eq_some_iff.mp h).1
  rw [Array.getElem?_push_lt hn, ← Array.getElem?_eq_getElem hn, h]

theorem getElem?_eq_of_grown {nodes' : Array ν} (h : nodes.toList <+: nodes'.toList) {n : Nat}
    (hn : n < nodes.size) : nodes'[n]? = nodes[n]? := by
  obtain ⟨more, hmore⟩ := h
  have hlt : n < nodes.toList.length := by simpa using hn
  rw [← Array.getElem?_toList, ← hmore, List.getElem?_append_left hlt, Array.getElem?_toList]

theorem getElem?_of_grown {nodes' : Array ν} (h : nodes.toList <+: nodes'.toList) {n : Nat}
    {node : ν} (hn : nodes[n]? = some node) : nodes'[n]? = some node :=
  (getElem?_eq_of_grown h (Array.getElem?_eq_some_iff.mp hn).1).trans hn

theorem getElem?_push_or {n : Nat} {node last : ν} (h : (nodes.push last)[n]? = some node) :
    nodes[n]? = some node ∨ n = nodes.size ∧ node = last := by
  have hlt := (Array.getElem?_eq_some_iff.mp h).1
  rw [Array.size_push] at hlt
  rcases Nat.lt_or_eq_of_le (Nat.le_of_lt_succ hlt) with hlt | rfl
  · rw [Array.getElem?_push_lt hlt, ← Array.getElem?_eq_getElem hlt] at h
    exact Or.inl h
  · rw [Array.getElem?_push_size, Option.some.injEq] at h
    exact Or.inr ⟨rfl, h.symm⟩

theorem InOrder.push (h : InOrder fanins nodes) {last : ν}
    (hlast : ∀ s ∈ fanins last, s.node < nodes.size) : InOrder fanins (nodes.push last) := by
  intro n node hn
  rcases getElem?_push_or hn with hn | ⟨rfl, rfl⟩
  · exact h n node hn
  · exact hlast

/-- What a function of its node says of each number; nothing if there is no such node. -/
def listAt (list : ν → List Nat) (nodes : Array ν) (n : Nat) : List Nat :=
  (nodes[n]?.map list).getD []

theorem listAt_eq {list : ν → List Nat} {n : Nat} {node : ν} (h : nodes[n]? = some node) :
    listAt list nodes n = list node := by
  simp [listAt, h]

/-- In creation order a graph is ranked by its node numbers. -/
theorem InOrder.ranked (h : InOrder fanins nodes) {fetch : Nat → Except Fault (List Nat)}
    {list : ν → List Nat} (hfetch : ∀ n node, nodes[n]? = some node → fetch n = .ok (list node))
    (hlength : ∀ node, (list node).length ≤ 2)
    (hlist : ∀ node, ∀ m ∈ list node, ∃ s ∈ fanins node, s.node = m) :
    Dag.Ranked nodes.size fetch (listAt list nodes) id := by
  have hnode : ∀ n < nodes.size, ∃ node, nodes[n]? = some node :=
    fun n hn => ⟨nodes[n], Array.getElem?_eq_getElem hn⟩
  have hlt : ∀ n < nodes.size, ∀ m ∈ listAt list nodes n, m < n := by
    intro n hn m hm
    obtain ⟨node, hnode⟩ := hnode n hn
    rw [listAt_eq hnode] at hm
    obtain ⟨s, hs, rfl⟩ := hlist node m hm
    exact h n node hnode s hs
  constructor
  · intro n hn
    obtain ⟨node, hnode⟩ := hnode n hn
    rw [listAt_eq hnode, hfetch n node hnode]
  · intro n hn
    obtain ⟨node, hnode⟩ := hnode n hn
    rw [listAt_eq hnode]
    exact hlength node
  · intro n hn m hm
    exact Nat.lt_trans (hlt n hn m hm) hn
  · exact hlt

end InOrder

end LogicResynthesis
