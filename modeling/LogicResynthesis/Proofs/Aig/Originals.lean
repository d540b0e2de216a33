import LogicResynthesis.Proofs.Aig.HashHistory

/-!
# Originals and duplicates

A node is a duplicate if an earlier one is structurally equal, and an original
otherwise. Different originals are not structurally equal, and a node stays what
it is when the list grows. A hash that was fed every gate so far tells a new gate
from a duplicate, which it answers by the original.
-/

namespace LogicResynthesis
namespace Aig

variable {nodes nodes' : Array Node} {n m k : Nat} {a b : Signal}

/-- Signals with one complement flag, of nodes that are built alike. -/
def SameOperand (nodes : Array Node) (a b : Signal) : Prop :=
  SameStructure nodes a.node b.node ∧ a.negated = b.negated

namespace SameStructure

theorem exists_and (h : SameStructure nodes n k) (hn : nodes[n]? = some (.and a b)) :
    ∃ c d, nodes[k]? = some (.and c d) ∧
      (SameOperand nodes a c ∧ SameOperand nodes b d ∨
        SameOperand nodes a d ∧ SameOperand nodes b c) := by
  cases h with
  | literal hn' _ => simp [hn] at hn'
  | input hn' => simp [hn] at hn'
  | and hn' hk hac hac' hbd hbd' =>
    obtain ⟨rfl, rfl⟩ := Node.and.inj (Option.some.inj (hn.symm.trans hn'))
    exact ⟨_, _, hk, .inl ⟨⟨hac, hac'⟩, hbd, hbd'⟩⟩
  | swapped hn' hk had had' hbc hbc' =>
    obtain ⟨rfl, rfl⟩ := Node.and.inj (Option.some.inj (hn.symm.trans hn'))
    exact ⟨_, _, hk, .inr ⟨⟨had, had'⟩, hbc, hbc'⟩⟩

theorem trans (h : SameStructure nodes n m) (h' : SameStructure nodes m k) :
    SameStructure nodes n k := by
  induction h generalizing k with
  | literal hn hm =>
    cases h' with
    | literal hm' hk =>
      obtain rfl := Node.literal.inj (Option.some.inj (hm.symm.trans hm'))
      exact .literal hn hk
    | input hm' => simp [hm] at hm'
    | and hm' => simp [hm] at hm'
    | swapped hm' => simp [hm] at hm'
  | input _ => exact h'
  | and hn hm _ hac' _ hbd' hac hbd =>
    obtain ⟨e, f, hk, ⟨⟨hce, hce'⟩, hdf, hdf'⟩ | ⟨⟨hcf, hcf'⟩, hde, hde'⟩⟩ := h'.exists_and hm
    · exact .and hn hk (hac hce) (hac'.trans hce') (hbd hdf) (hbd'.trans hdf')
    · exact .swapped hn hk (hac hcf) (hac'.trans hcf') (hbd hde) (hbd'.trans hde')
  | swapped hn hm _ had' _ hbc' had hbc =>
    obtain ⟨e, f, hk, ⟨⟨hce, hce'⟩, hdf, hdf'⟩ | ⟨⟨hcf, hcf'⟩, hde, hde'⟩⟩ := h'.exists_and hm
    · exact .swapped hn hk (had hdf) (had'.trans hdf') (hbc hce) (hbc'.trans hce')
    · exact .and hn hk (had hde) (had'.trans hde') (hbc hcf) (hbc'.trans hcf')

theorem of_hasDepth {d : Nat} (h : HasDepth nodes n d) : SameStructure nodes n n := by
  induction h with
  | literal hn => exact .literal hn hn
  | input hn => exact .input hn
  | and hn _ _ iha ihb => exact .and hn hn iha rfl ihb rfl

theorem of_grown (hgrown : nodes.toList <+: nodes'.toList) (h : SameStructure nodes n k) :
    SameStructure nodes' n k := by
  induction h with
  | literal hn hk => exact .literal (getElem?_of_grown hgrown hn) (getElem?_of_grown hgrown hk)
  | input hn => exact .input (getElem?_of_grown hgrown hn)
  | and hn hk _ hac' _ hbd' hac hbd =>
    exact .and (getElem?_of_grown hgrown hn) (getElem?_of_grown hgrown hk) hac hac' hbd hbd'
  | swapped hn hk _ had' _ hbc' had hbc =>
    exact .swapped (getElem?_of_grown hgrown hn) (getElem?_of_grown hgrown hk) had had' hbc hbc'

theorem before (hordered : Ordered nodes) (hgrown : nodes.toList <+: nodes'.toList)
    (h : SameStructure nodes' n k) (hn : n < nodes.size) (hk : k < nodes.size) :
    SameStructure nodes n k := by
  have hold : ∀ {m : Nat} {node : Node}, nodes'[m]? = some node → m < nodes.size →
      nodes[m]? = some node :=
    fun hm hlt => (getElem?_eq_of_grown hgrown hlt).symm.trans hm
  have hlt : ∀ {m : Nat} {a b : Signal}, nodes[m]? = some (.and a b) →
      a.node < nodes.size ∧ b.node < nodes.size := by
    intro m a b hm
    obtain ⟨ha, hb⟩ := hordered.operands_lt hm
    have hm := (Array.getElem?_eq_some_iff.mp hm).1
    omega
  induction h with
  | literal hn' hk' => exact .literal (hold hn' hn) (hold hk' hk)
  | input hn' => exact .input (hold hn' hn)
  | and hn' hk' _ hac' _ hbd' hac hbd =>
    obtain ⟨ha, hb⟩ := hlt (hold hn' hn)
    obtain ⟨hc, hd⟩ := hlt (hold hk' hk)
    exact .and (hold hn' hn) (hold hk' hk) (hac ha hc) hac' (hbd hb hd) hbd'
  | swapped hn' hk' _ had' _ hbc' had hbc =>
    obtain ⟨ha, hb⟩ := hlt (hold hn' hn)
    obtain ⟨hc, hd⟩ := hlt (hold hk' hk)
    exact .swapped (hold hn' hn) (hold hk' hk) (had ha hd) had' (hbc hb hc) hbc'

end SameStructure

theorem Ordered.sameStructure_refl (h : Ordered nodes) (hn : n < nodes.size) :
    SameStructure nodes n n := by
  obtain ⟨d, hd⟩ := h.ranked.exists_hasDepth hn
  exact .of_hasDepth hd

/-- An earlier node is built alike. -/
def Duplicate (nodes : Array Node) (n : Nat) : Prop := ∃ k < n, SameStructure nodes k n

theorem duplicate_iff_of_grown (hordered : Ordered nodes)
    (hgrown : nodes.toList <+: nodes'.toList) (hn : n < nodes.size) :
    Duplicate nodes' n ↔ Duplicate nodes n := by
  constructor
  · rintro ⟨k, hk, hsame⟩
    exact ⟨k, hk, hsame.before hordered hgrown (Nat.lt_trans hk hn) hn⟩
  · rintro ⟨k, hk, hsame⟩
    exact ⟨k, hk, hsame.of_grown hgrown⟩

/-- A node of the list that is the first of its structure. -/
structure Original (nodes : Array Node) (n : Nat) : Prop where
  lt_size : n < nodes.size
  first : ¬Duplicate nodes n

namespace Original

theorem eq_of_sameStructure (hn : Original nodes n) (hk : Original nodes k)
    (h : SameStructure nodes n k) : n = k := by
  rcases Nat.lt_trichotomy n k with hlt | heq | hlt
  · exact absurd ⟨n, hlt, h⟩ hk.first
  · exact heq
  · exact absurd ⟨k, hlt, h.symm⟩ hn.first

theorem eq_of_sameOperand {a b : Signal} (ha : Original nodes a.node) (hb : Original nodes b.node)
    (h : SameOperand nodes a b) : a = b := by
  obtain ⟨n, p⟩ := a
  obtain ⟨m, q⟩ := b
  obtain ⟨hsame, hneg⟩ := h
  rw [Signal.mk.injEq]
  exact ⟨ha.eq_of_sameStructure hb hsame, hneg⟩

theorem of_grown (hordered : Ordered nodes) (hgrown : nodes.toList <+: nodes'.toList)
    (h : Original nodes n) : Original nodes' n where
  lt_size := Nat.lt_of_lt_of_le h.lt_size (by simpa using hgrown.length_le)
  first hn := h.first ((duplicate_iff_of_grown hordered hgrown h.lt_size).mp hn)

theorem input {name : String} (hn : nodes[n]? = some (.input name)) : Original nodes n where
  lt_size := (Array.getElem?_eq_some_iff.mp hn).1
  first := by
    rintro ⟨k, hk, hsame⟩
    cases hsame with
    | literal _ hn' => simp [hn] at hn'
    | input _ => exact Nat.lt_irrefl _ hk
    | and _ hn' => simp [hn] at hn'
    | swapped _ hn' => simp [hn] at hn'

theorem zero (hzero : 0 < nodes.size) : Original nodes 0 :=
  ⟨hzero, fun ⟨_, hk, _⟩ => Nat.not_lt_zero _ hk⟩

end Original

/-- Node `k` is a gate over `x` and `y`. -/
def IsAndOf (nodes : Array Node) (k : Nat) (x y : Signal) : Prop :=
  nodes[k]? = some (.and x y) ∨ nodes[k]? = some (.and y x)

namespace IsAndOf

variable {x y : Signal}

theorem swap (h : IsAndOf nodes k x y) : IsAndOf nodes k y x := Or.symm h

theorem of_grown (hgrown : nodes.toList <+: nodes'.toList) (h : IsAndOf nodes k x y) :
    IsAndOf nodes' k x y :=
  h.imp (getElem?_of_grown hgrown) (getElem?_of_grown hgrown)

theorem lt_size (h : IsAndOf nodes k x y) : k < nodes.size := by
  rcases h with h | h <;> exact (Array.getElem?_eq_some_iff.mp h).1

theorem sameStructure (hordered : Ordered nodes) (hn : IsAndOf nodes n x y)
    (hk : IsAndOf nodes k x y) : SameStructure nodes n k := by
  have hrefl : ∀ {n : Nat} {u v : Signal}, nodes[n]? = some (.and u v) →
      SameStructure nodes u.node u.node ∧ SameStructure nodes v.node v.node := by
    intro n u v hn
    have hlt := (Array.getElem?_eq_some_iff.mp hn).1
    obtain ⟨hu, hv⟩ := hordered.operands_lt hn
    exact ⟨hordered.sameStructure_refl (Nat.lt_trans hu hlt),
      hordered.sameStructure_refl (Nat.lt_trans hv hlt)⟩
  rcases hn with hn | hn <;> obtain ⟨hu, hv⟩ := hrefl hn <;> rcases hk with hk | hk
  · exact .and hn hk hu rfl hv rfl
  · exact .swapped hn hk hu rfl hv rfl
  · exact .swapped hn hk hu rfl hv rfl
  · exact .and hn hk hu rfl hv rfl

theorem of_sameStructure (hn : nodes[n]? = some (.and x y)) (hx : Original nodes x.node)
    (hy : Original nodes y.node)
    (hk : ∀ c d, nodes[k]? = some (.and c d) → Original nodes c.node ∧ Original nodes d.node)
    (hsame : SameStructure nodes k n) : IsAndOf nodes k x y := by
  obtain ⟨c, d, hgate, hoperands⟩ := hsame.symm.exists_and hn
  obtain ⟨hc, hd⟩ := hk c d hgate
  rcases hoperands with ⟨hxc, hyd⟩ | ⟨hxd, hyc⟩
  · rw [hx.eq_of_sameOperand hc hxc, hy.eq_of_sameOperand hd hyd]
    exact .inl hgate
  · rw [hx.eq_of_sameOperand hd hxd, hy.eq_of_sameOperand hc hyc]
    exact .inr hgate

end IsAndOf

/-- The gates of a node list, in order. -/
def gateNodes (nodes : Array Node) : List Nat :=
  (List.range nodes.size).filter fun n => (nodes[n]?.map Node.isAnd).getD false

theorem mem_gateNodes : n ∈ gateNodes nodes ↔ ∃ a b, nodes[n]? = some (.and a b) := by
  unfold gateNodes
  rw [List.mem_filter, List.mem_range, isAnd_at_iff]
  constructor
  · exact fun h => h.2
  · rintro ⟨a, b, hn⟩
    exact ⟨(Array.getElem?_eq_some_iff.mp hn).1, a, b, hn⟩

theorem gateNodes_push (nodes : Array Node) (node : Node) :
    gateNodes (nodes.push node) =
      gateNodes nodes ++ if node.isAnd then [nodes.size] else [] := by
  have hold : (List.range nodes.size).filter
      (fun n => ((nodes.push node)[n]?.map Node.isAnd).getD false) = gateNodes nodes := by
    apply List.filter_congr
    intro n hn
    rw [Array.getElem?_push_lt (List.mem_range.mp hn),
      ← Array.getElem?_eq_getElem (List.mem_range.mp hn)]
  rw [gateNodes, Array.size_push, List.range_succ, List.filter_append, hold, List.filter_singleton,
    Array.getElem?_push_size]
  simp

theorem gate_of_sameStructure_last (h : SameStructure (nodes.push (.and a b)) k nodes.size)
    (hk : k < nodes.size) : k ∈ gateNodes nodes := by
  obtain ⟨c, d, hgate, -⟩ := h.symm.exists_and Array.getElem?_push_size
  rcases getElem?_push_or hgate with hgate | ⟨rfl, -⟩
  · exact mem_gateNodes.mpr ⟨c, d, hgate⟩
  · exact absurd hk (Nat.lt_irrefl _)

theorem pairwise_gateNodes (nodes : Array Node) : (gateNodes nodes).Pairwise (· < ·) :=
  List.pairwise_lt_range.filter _

theorem eq_false_of_find? {l : List Nat} (hl : l.Pairwise (· < ·)) {p : Nat → Bool}
    (hfind : l.find? p = some k) : ∀ j ∈ l, j < k → p j = false := by
  obtain ⟨-, before, after, rfl, hbefore⟩ := List.find?_eq_some_iff_append.mp hfind
  intro j hj hjk
  rcases List.mem_append.mp hj with hj | hj
  · simpa using hbefore j hj
  · have hafter := (List.pairwise_cons.mp (List.pairwise_append.mp hl).2.1).1
    rcases List.mem_cons.mp hj with rfl | hj
    · exact absurd hjk (Nat.lt_irrefl _)
    · exact absurd (hafter j hj) (Nat.lt_asymm hjk)

open Classical StructuralHash in
/-- Among the gates of a list, what answers for a further gate is an original. -/
theorem firstAlike_gateNodes (nodes : Array Node) (a b : Signal) :
    (∃ k, firstAlike (nodes.push (.and a b)) (gateNodes nodes) nodes.size = some k ∧
        k < nodes.size ∧ Original (nodes.push (.and a b)) k ∧
        SameStructure (nodes.push (.and a b)) k nodes.size) ∨
      firstAlike (nodes.push (.and a b)) (gateNodes nodes) nodes.size = none ∧
        Original (nodes.push (.and a b)) nodes.size := by
  cases hfind : firstAlike (nodes.push (.and a b)) (gateNodes nodes) nodes.size with
  | none =>
    refine .inr ⟨rfl, by simp, ?_⟩
    rintro ⟨k, hk, hsame⟩
    have hnot := List.find?_eq_none.mp hfind k (gate_of_sameStructure_last hsame hk)
    exact hnot (decide_eq_true hsame)
  | some k =>
    have hfound := List.find?_some (p := fun k => decide (SameStructure _ k nodes.size)) hfind
    have hsame : SameStructure (nodes.push (.and a b)) k nodes.size := of_decide_eq_true hfound
    obtain ⟨c, d, hgate⟩ := mem_gateNodes.mp (List.mem_of_find?_eq_some hfind)
    have hk := (Array.getElem?_eq_some_iff.mp hgate).1
    refine .inl ⟨k, rfl, hk, ⟨by simp; omega, ?_⟩, hsame⟩
    rintro ⟨j, hj, hjk⟩
    have hlast := hjk.trans hsame
    have hmem := gate_of_sameStructure_last hlast (Nat.lt_trans hj hk)
    have hnot := eq_false_of_find? (pairwise_gateNodes nodes) hfind j hmem hj
    exact of_decide_eq_false hnot hlast

end Aig
end LogicResynthesis
