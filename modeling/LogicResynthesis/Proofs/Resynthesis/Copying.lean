import LogicResynthesis.Proofs.Resynthesis.LawfulNetwork
import LogicResynthesis.Resynthesis.Cone

/-!
# Copies compute what the library computes

The memo of a copy is sound if each of its target signals has the value of the
library node, the library inputs having the values that are meant for them.
Copying keeps the memo sound, and gives no fault once the constant and the
inputs are in it.
-/

namespace LogicResynthesis
namespace Copy

open LawfulNetwork (Reachable Has value GrowsTo)

variable {σ : Type} [Network σ] [LawfulNetwork σ]

/-- What is not a gate has been copied, and copied nodes have the value of the library node when
its inputs have the values `inputs a`, the target's inputs being `a`. -/
structure Ready (library : Xag) (inputs : (Nat → Bool) → Nat → Bool) (c : Copy σ) : Prop where
  reachable : Reachable c.target
  seeded : ∀ (n : Nat) (node : Xag.Node), library.nodes[n]? = some node → ¬node.IsGate →
    c.memo.contains n = true
  has : ∀ (n : Nat) (t : Signal), c.memo[n]? = some t → Has c.target t
  value : ∀ (n : Nat) (t : Signal), c.memo[n]? = some t → ∀ a,
    value c.target a t = library.value (inputs a) (.ofNode n)

variable {library : Xag} {inputs : (Nat → Bool) → Nat → Bool} {c : Copy σ}

theorem exists_of_contains {memo : Memo} {n : Nat} (h : memo.contains n = true) :
    ∃ t, memo[n]? = some t := by
  rwa [Std.HashMap.contains_eq_isSome_getElem?, Option.isSome_iff_exists] at h

theorem Ready.resolve (h : c.Ready library inputs) {s : Signal}
    (hs : c.memo.contains s.node = true) :
    ∃ t, Memo.resolve? c.memo s = .ok t ∧ Has c.target t ∧
      ∀ a, LawfulNetwork.value c.target a t = library.value (inputs a) s := by
  obtain ⟨t, ht⟩ := exists_of_contains hs
  refine ⟨t.complementIf s.negated, ?_, LawfulNetwork.has_complementIf (h.has _ t ht) _, ?_⟩
  · simp [Memo.resolve?, ht]
  · intro a
    rw [LawfulNetwork.value_complementIf, h.value _ t ht]
    exact (Xag.value_eq_regular (inputs a) s).symm

/-- The copy is ready again with some more nodes, and the target has only grown. -/
structure Copied (library : Xag) (inputs : (Nat → Bool) → Nat → Bool) (c : Copy σ)
    (order : List Nat) (c' : Copy σ) : Prop where
  ready : c'.Ready library inputs
  grows : GrowsTo c.target c'.target
  contains : ∀ k, c'.memo.contains k = true ↔ k ∈ order ∨ c.memo.contains k = true

theorem Ready.copied_nil (h : c.Ready library inputs) : Copied library inputs c [] c where
  ready := h
  grows := LawfulNetwork.grows_refl _
  contains k := by simp

theorem Copied.append {order later : List Nat} {c' c'' : Copy σ}
    (h : Copied library inputs c order c') (h' : Copied library inputs c' later c'') :
    Copied library inputs c (order ++ later) c'' where
  ready := h'.ready
  grows := LawfulNetwork.grows_trans h.grows h'.grows
  contains k := by
    rw [h'.contains, h.contains, List.mem_append]
    tauto

theorem contains_insert_iff {memo : Memo} {n k : Nat} {s : Signal} :
    (memo.insert n s).contains k = true ↔ k ∈ [n] ∨ memo.contains k = true := by
  rw [Std.HashMap.contains_insert, Bool.or_eq_true, beq_iff_eq, List.mem_singleton,
    Eq.comm (a := n)]

theorem Ready.copied_node (h : c.Ready library inputs) {n : Nat} {s : Signal} {target : σ}
    (hreachable : Reachable target) (hgrows : GrowsTo c.target target) (hs : Has target s)
    (hvalue : ∀ a, LawfulNetwork.value target a s = library.value (inputs a) (.ofNode n)) :
    Copied library inputs c [n] ⟨c.memo.insert n s, target⟩ := by
  have hread : ∀ (k : Nat) (t : Signal), (c.memo.insert n s)[k]? = some t →
      k = n ∧ t = s ∨ c.memo[k]? = some t := by
    intro k t ht
    rw [Std.HashMap.getElem?_insert] at ht
    split_ifs at ht with hk
    · exact Or.inl ⟨(beq_iff_eq.mp hk).symm, (Option.some.inj ht).symm⟩
    · exact Or.inr ht
  refine ⟨⟨hreachable, ?_, ?_, ?_⟩, hgrows, fun k => contains_insert_iff⟩
  · intro k node hnode hgate
    exact contains_insert_iff.mpr (Or.inr (h.seeded k node hnode hgate))
  · intro k t ht
    rcases hread k t ht with ⟨-, rfl⟩ | ht
    · exact hs
    · exact LawfulNetwork.has_of_grows hgrows (h.has k t ht)
  · intro k t ht a
    rcases hread k t ht with ⟨rfl, rfl⟩ | ht
    · exact hvalue a
    · rw [← h.value k t ht a]
      exact LawfulNetwork.value_of_grows hgrows (h.has k t ht) a

theorem node?_eq {n : Nat} {node : Xag.Node} (h : library.nodes[n]? = some node) :
    library.node? n = .ok node := by
  simp [Xag.node?, h]

theorem Ready.addNode (h : c.Ready library inputs) (hlibrary : library.WellFormed) {n : Nat}
    {node : Xag.Node} (hnode : library.nodes[n]? = some node) (hgate : node.IsGate)
    (hfanins : ∀ s ∈ node.fanins, c.memo.contains s.node = true) :
    ∃ c', addNode library c n = .ok c' ∧ Copied library inputs c [n] c' := by
  obtain ⟨memo, target⟩ := c
  unfold Copy.addNode
  cases node with
  | constant => exact hgate.elim
  | input i => exact hgate.elim
  | and x y =>
    obtain ⟨tx, hx, hasx, hvaluex⟩ := h.resolve (hfanins x (by simp [Xag.Node.fanins]))
    obtain ⟨ty, hy, hasy, hvaluey⟩ := h.resolve (hfanins y (by simp [Xag.Node.fanins]))
    obtain ⟨s, target', hadd, hreachable, hgrows, hs, hvalue⟩ :=
      LawfulNetwork.addAnd?_ok h.reachable hasx hasy
    refine ⟨⟨memo.insert n s, target'⟩, ?_, h.copied_node hreachable hgrows hs fun a => ?_⟩
    · simp only [bind, Except.bind, node?_eq hnode, hx, hy, hadd]
      rfl
    · rw [hvalue a, hvaluex a, hvaluey a, Xag.value_and _ hlibrary.ordered hnode]
  | xor x y =>
    obtain ⟨tx, hx, hasx, hvaluex⟩ := h.resolve (hfanins x (by simp [Xag.Node.fanins]))
    obtain ⟨ty, hy, hasy, hvaluey⟩ := h.resolve (hfanins y (by simp [Xag.Node.fanins]))
    obtain ⟨s, target', hadd, hreachable, hgrows, hs, hvalue⟩ :=
      LawfulNetwork.addXor?_ok h.reachable hasx hasy
    refine ⟨⟨memo.insert n s, target'⟩, ?_, h.copied_node hreachable hgrows hs fun a => ?_⟩
    · simp only [bind, Except.bind, node?_eq hnode, hx, hy, hadd]
      rfl
    · rw [hvalue a, hvaluex a, hvaluey a, Xag.value_xor _ hlibrary.ordered hnode]

def faninsOf (library : Xag) : Nat → List Nat :=
  listAt (fun node => (node.fanins.map (·.node)).reverse) library.nodes

theorem ranked_pendingFanins (hlibrary : library.WellFormed) :
    Dag.Ranked library.size (pendingFanins library) (faninsOf library) id := by
  apply hlibrary.ordered.ranked
  · intro n node hnode
    rw [pendingFanins, node?_eq hnode]
    rfl
  · intro node
    cases node <;> simp [Xag.Node.fanins]
  · intro node m hm
    rw [List.mem_reverse] at hm
    exact List.mem_map.mp hm

/-- The next node of an order that is in topological order, what is no gate having been copied, is
a gate whose fanins have been copied. -/
theorem exists_gate_of_pending {memo memo' : Memo} {order : List Nat} {n : Nat}
    (hcontains : ∀ k, memo'.contains k = true ↔ k ∈ order ∨ memo.contains k = true)
    (hseeded : ∀ (n : Nat) (node : Xag.Node), library.nodes[n]? = some node → ¬node.IsGate →
      memo'.contains n = true)
    (hn : n < library.size) (hdone : memo.contains n = false) (hnew : n ∉ order)
    (hbelow : ∀ m ∈ faninsOf library n, memo.contains m = true ∨ m ∈ order) :
    ∃ node, library.nodes[n]? = some node ∧ node.IsGate ∧
      ∀ s ∈ node.fanins, memo'.contains s.node = true := by
  have hnode : library.nodes[n]? = some library.nodes[n] := Array.getElem?_eq_getElem hn
  refine ⟨_, hnode, ?_, fun s hs => ?_⟩
  · have hfresh : memo'.contains n ≠ true := by
      rw [Ne, hcontains n, hdone]
      simpa using hnew
    by_contra hgate
    exact hfresh (hseeded n _ hnode hgate)
  · have hmem : s.node ∈ faninsOf library n := by
      rw [faninsOf, listAt_eq hnode, List.mem_reverse]
      exact List.mem_map_of_mem hs
    exact (hcontains s.node).mpr (hbelow s.node hmem).symm

theorem Copied.concat {order : List Nat} {c' : Copy σ} (h : Copied library inputs c order c')
    (hlibrary : library.WellFormed) {n : Nat} (hn : n < library.size)
    (hdone : c.memo.contains n = false) (hnew : n ∉ order)
    (hbelow : ∀ m ∈ faninsOf library n, c.memo.contains m = true ∨ m ∈ order) :
    ∃ c'', addNode library c' n = .ok c'' ∧ Copied library inputs c (order ++ [n]) c'' := by
  obtain ⟨node, hnode, hgate, hfanins⟩ :=
    exists_gate_of_pending h.contains h.ready.seeded hn hdone hnew hbelow
  obtain ⟨c'', hadd, hcopied⟩ := h.ready.addNode hlibrary hnode hgate hfanins
  exact ⟨c'', hadd, h.append hcopied⟩

/-- The cone of a library node is copied without a fault, into a signal of its value. -/
theorem Ready.addCone (h : c.Ready library inputs) (hlibrary : library.WellFormed) {root : Nat}
    (hroot : root < library.size) :
    ∃ s c', addCone library c root = .ok (s, c') ∧ c'.Ready library inputs ∧
      GrowsTo c.target c'.target ∧ Has c'.target s ∧
      ∀ a, LawfulNetwork.value c'.target a s = library.value (inputs a) (.ofNode root) := by
  have hroots : ∀ n ∈ [root], n < library.size := by simpa using hroot
  obtain ⟨order, horder, htopological, hfinished⟩ :=
    (ranked_pendingFanins hlibrary).postOrder_topological (c.memo.contains ·) hroots
  obtain ⟨c', hrun, hcopied⟩ := htopological.foldlM_ok (f := Copy.addNode library)
    (P := Copied library inputs c) h.copied_nil
    fun _ _ _ hcopied hn hdone hnew hbelow => hcopied.concat hlibrary hn hdone hnew hbelow
  have hmem : c'.memo.contains root = true :=
    (hcopied.contains root).mpr (hfinished root List.mem_cons_self).symm
  obtain ⟨s, hs, hhas, hvalue⟩ := hcopied.ready.resolve (s := .ofNode root) hmem
  refine ⟨s, c', ?_, hcopied.ready, hcopied.grows, hhas, hvalue⟩
  simp only [Copy.addCone, horder, bind, Except.bind, hrun, hs]
  rfl

end Copy
end LogicResynthesis
