import Mathlib.Data.Set.Card
import LogicResynthesis.Proofs.Dag.Reachability
import LogicResynthesis.Proofs.Resynthesis.Copying
import LogicResynthesis.Proofs.Resynthesis.Requests

/-!
# What copying a cone requests

Copying a library cone requests one gate for each gate of the cone that has no
copy yet, of its kind and over the copies of its operands. Copies that were
there before stay.
-/

namespace LogicResynthesis

namespace Xag

/-- The cone of a node: the node itself, and whatever its fanins lead to. -/
def InCone (g : Xag) : Nat → Nat → Prop :=
  Relation.ReflTransGen fun n m => ∃ node, g.nodes[n]? = some node ∧ ∃ s ∈ node.fanins, s.node = m

def Node.kind? : Node → Option GateKind
  | .and _ _ => some .and
  | .xor _ _ => some .xor
  | _ => none

/-- The kind of gate that a node is, if it is one. -/
def kindAt? (g : Xag) (n : Nat) : Option GateKind := g.nodes[n]?.bind Node.kind?

/-- The gates of a kind in the cones of some signals. -/
def gatesBelow (g : Xag) (kind : GateKind) (signals : List Signal) : Set Nat :=
  {n | g.kindAt? n = some kind ∧ ∃ s ∈ signals, g.InCone s.node n}

end Xag

@[simp] theorem GateKind.kind?_node (kind : GateKind) (x y : Signal) :
    (kind.node x y).kind? = some kind := by
  cases kind <;> rfl

theorem Memo.resolve?_eq_ok {memo : Memo} {x s : Signal} :
    memo.resolve? x = .ok s ↔ ∃ t, memo[x.node]? = some t ∧ s = t.complementIf x.negated := by
  unfold Memo.resolve?
  cases memo[x.node]? with
  | none => simp
  | some t => simp [eq_comm]

theorem Memo.contains_of_resolve? {memo : Memo} {x s : Signal} (h : memo.resolve? x = .ok s) :
    memo.contains x.node = true := by
  obtain ⟨t, ht, -⟩ := Memo.resolve?_eq_ok.mp h
  rw [Std.HashMap.contains_eq_isSome_getElem?, ht]
  rfl

theorem Memo.resolve?_ofNode {memo : Memo} {n : Nat} {s : Signal} :
    memo.resolve? (.ofNode n) = .ok s ↔ memo[n]? = some s := by
  simp [Memo.resolve?_eq_ok, Signal.ofNode, Signal.complementIf]

theorem Copy.addCone_eq_ok {σ : Type} [Network σ] {library : Xag} {c c' : Copy σ} {root : Nat}
    {s : Signal} :
    addCone library c root = .ok (s, c') ↔ ∃ order,
      Dag.postOrder library.size (pendingFanins library) (c.memo.contains ·) [root] = .ok order ∧
      order.foldlM (addNode library) c = .ok c' ∧ c'.memo[root]? = some s := by
  constructor
  · intro h
    obtain ⟨order, horder, h⟩ := bind_eq_ok.mp h
    obtain ⟨c₁, hrun, h⟩ := bind_eq_ok.mp h
    obtain ⟨s₁, hs, h⟩ := bind_eq_ok.mp h
    obtain ⟨rfl, rfl⟩ := Prod.mk.inj (Except.ok.inj h)
    exact ⟨order, horder, hrun, Memo.resolve?_ofNode.mp hs⟩
  · rintro ⟨order, horder, hrun, hs⟩
    apply bind_eq_ok.mpr
    refine ⟨order, horder, bind_eq_ok.mpr ⟨c', hrun, bind_eq_ok.mpr ⟨s, ?_, rfl⟩⟩⟩
    exact Memo.resolve?_ofNode.mpr hs

/-- The later memo has the entries of the earlier one. -/
def Memo.Extends (memo memo' : Memo) : Prop :=
  ∀ (n : Nat) (s : Signal), memo[n]? = some s → memo'[n]? = some s

namespace Memo.Extends

variable {memo memo' memo'' : Memo}

theorem refl (memo : Memo) : memo.Extends memo := fun _ _ h => h

theorem trans (h : memo.Extends memo') (h' : memo'.Extends memo'') : memo.Extends memo'' :=
  fun n s hs => h' n s (h n s hs)

theorem resolve (h : memo.Extends memo') {x s : Signal} (hx : memo.resolve? x = .ok s) :
    memo'.resolve? x = .ok s := by
  obtain ⟨t, ht, rfl⟩ := Memo.resolve?_eq_ok.mp hx
  exact Memo.resolve?_eq_ok.mpr ⟨t, h _ t ht, rfl⟩

theorem insert {n : Nat} (hn : memo.contains n = false) (s : Signal) :
    memo.Extends (memo.insert n s) := by
  intro k t ht
  rw [Std.HashMap.getElem?_insert]
  have hne : ¬(n == k) = true := by
    rw [beq_iff_eq]
    rintro rfl
    rw [Std.HashMap.contains_eq_isSome_getElem?, ht] at hn
    cases hn
  rw [if_neg hne, ht]

end Memo.Extends

theorem GateKind.mem_fanins (kind : GateKind) {x y s : Signal} :
    s ∈ (kind.node x y).fanins ↔ s = x ∨ s = y := by
  cases kind <;> simp [GateKind.node, Xag.Node.fanins]

/-- The call asks for the gate of a library node over the copies of its operands, and the answer
is the copy of the node. -/
structure Call.Builds (library : Xag) (memo : Memo) (n : Nat) (call : Call) : Prop where
  gate : ∃ x y, library.nodes[n]? = some (call.kind.node x y) ∧
    memo.resolve? x = .ok call.left ∧ memo.resolve? y = .ok call.right
  answer : memo[n]? = some call.answer

theorem Call.Builds.extends {library : Xag} {memo memo' : Memo} {n : Nat} {call : Call}
    (h : call.Builds library memo n) (hmemo : memo.Extends memo') :
    call.Builds library memo' n := by
  obtain ⟨x, y, hnode, hx, hy⟩ := h.gate
  exact ⟨⟨x, y, hnode, hmemo.resolve hx, hmemo.resolve hy⟩, hmemo n _ h.answer⟩

theorem Call.builds_concat {library : Xag} {memo : Memo} {order : List Nat} {calls : List Call}
    {n : Nat} {kind : GateKind} {x y s t r : Signal}
    (h : List.Forall₂ (fun n call => Builds library memo n call) order calls)
    (hn : memo.contains n = false) (hnode : library.nodes[n]? = some (kind.node x y))
    (hx : memo.resolve? x = .ok s) (hy : memo.resolve? y = .ok t) :
    List.Forall₂ (fun k call => Builds library (memo.insert n r) k call) (order ++ [n])
      (calls ++ [⟨kind, s, t, r⟩]) := by
  have hextends : memo.Extends (memo.insert n r) := .insert hn r
  have hbuilt : Builds library (memo.insert n r) n ⟨kind, s, t, r⟩ :=
    ⟨⟨x, y, hnode, hextends.resolve hx, hextends.resolve hy⟩, Std.HashMap.getElem?_insert_self⟩
  exact List.rel_append (h.imp fun _ _ hcall => hcall.extends hextends) (.cons hbuilt .nil)

theorem Call.Builds.kindAt? {library : Xag} {memo : Memo} {n : Nat} {call : Call}
    (h : call.Builds library memo n) : library.kindAt? n = some call.kind := by
  obtain ⟨x, y, hnode, -⟩ := h.gate
  simp [Xag.kindAt?, hnode]

theorem Call.isSome_kindAt?_of_builds {library : Xag} {memo : Memo} {order : List Nat}
    {calls : List Call} (h : List.Forall₂ (fun n call => Builds library memo n call) order calls) :
    ∀ n ∈ order, (library.kindAt? n).isSome = true :=
  ((List.forall₂_and_left _ _).mp (h.imp fun _ _ hcall =>
    ⟨Option.isSome_of_eq_some hcall.kindAt?, hcall⟩)).1

theorem Call.count_eq {library : Xag} {memo : Memo} {order : List Nat} {calls : List Call}
    (h : List.Forall₂ (fun n call => Builds library memo n call) order calls) (kind : GateKind) :
    count kind calls = order.countP (library.kindAt? · = some kind) := by
  induction h with
  | nil => rfl
  | cons hcall _ ih =>
    rw [count, List.countP_cons, List.countP_cons, ← ih, hcall.kindAt?, count]
    simp only [Option.some.injEq]

/-- If each gate of the cones is built once, the calls of a kind are counted by the gates. -/
theorem Call.count_eq_ncard {library : Xag} {memo : Memo} {order : List Nat} {calls : List Call}
    {signals : List Signal}
    (h : List.Forall₂ (fun n call => Builds library memo n call) order calls)
    (hnodup : order.Nodup)
    (hmem : ∀ n, n ∈ order ↔
      (library.kindAt? n).isSome = true ∧ ∃ s ∈ signals, library.InCone s.node n)
    (kind : GateKind) : count kind calls = (library.gatesBelow kind signals).ncard := by
  let built := order.filter (library.kindAt? · = some kind)
  have hbuilt : (built.toFinset : Set Nat) = library.gatesBelow kind signals := by
    ext n
    simp only [built, List.coe_toFinset, List.mem_filter, hmem, decide_eq_true_eq]
    constructor
    · rintro ⟨⟨-, hcone⟩, hkind⟩
      exact ⟨hkind, hcone⟩
    · rintro ⟨hkind, hcone⟩
      exact ⟨⟨Option.isSome_of_eq_some hkind, hcone⟩, hkind⟩
  rw [count_eq h, List.countP_eq_length_filter, ← hbuilt, Set.ncard_coe_finset,
    List.toFinset_card_of_nodup (hnodup.filter _)]

/-- Up to a complement the signal is the constant, a leaf or the answer of a call. -/
def ComesFrom (leaves : List Signal) (calls : List Call) (s : Signal) : Prop :=
  ∃ (t : Signal) (v : Bool), s = t.complementIf v ∧
    (t = .constant false ∨ t ∈ leaves ∨ ∃ call ∈ calls, t = call.answer)

theorem ComesFrom.complementIf {leaves : List Signal} {calls : List Call} {s : Signal}
    (h : ComesFrom leaves calls s) (v : Bool) : ComesFrom leaves calls (s.complementIf v) := by
  obtain ⟨t, w, rfl, ht⟩ := h
  refine ⟨t, w ^^ v, ?_, ht⟩
  simp [Signal.complementIf]

theorem ComesFrom.append {leaves : List Signal} {calls : List Call} {s : Signal}
    (h : ComesFrom leaves calls s) (later : List Call) : ComesFrom leaves (calls ++ later) s := by
  obtain ⟨t, v, rfl, ht⟩ := h
  refine ⟨t, v, rfl, ht.imp_right (Or.imp_right ?_)⟩
  rintro ⟨call, hcall, rfl⟩
  exact ⟨call, List.mem_append_left _ hcall, rfl⟩

/-- The operands of every call come from the leaves and the calls before it. -/
inductive Sourced (leaves : List Signal) : List Call → Prop
  | nil : Sourced leaves []
  | concat {calls : List Call} {call : Call} (h : Sourced leaves calls)
      (hleft : ComesFrom leaves calls call.left) (hright : ComesFrom leaves calls call.right) :
      Sourced leaves (calls ++ [call])

namespace Copy

variable {σ : Type} {library : Xag} {leaves : List Signal} {memo₀ : Memo}

theorem mem_faninsOf {n m : Nat} : m ∈ faninsOf library n ↔
    ∃ node, library.nodes[n]? = some node ∧ ∃ s ∈ node.fanins, s.node = m := by
  unfold faninsOf listAt
  cases library.nodes[n]? with
  | none => simp
  | some node => simp

theorem faninsOf_eq_nil {n : Nat} (h : library.kindAt? n = none) : faninsOf library n = [] := by
  unfold faninsOf listAt
  unfold Xag.kindAt? at h
  cases hread : library.nodes[n]? with
  | none => rfl
  | some node =>
    rw [hread] at h
    cases node with
    | constant => rfl
    | input i => rfl
    | and x y => cases h
    | xor x y => cases h

theorem leads_faninsOf : Dag.Leads (faninsOf library) = library.InCone := by
  unfold Dag.Leads Xag.InCone
  simp only [mem_faninsOf]

/-- Over a closed set of copied nodes the search from a node finds the rest of its cone. -/
theorem exists_coneOrder (hlibrary : library.WellFormed) {memo : Memo}
    (hclosed : ∀ n, memo.contains n = true → ∀ m ∈ faninsOf library n, memo.contains m = true)
    {root : Nat} (hroot : root < library.size) :
    ∃ order,
      Dag.postOrder library.size (pendingFanins library) (memo.contains ·) [root] = .ok order ∧
      Dag.Topological library.size (faninsOf library) (memo.contains ·) order ∧
      ∀ n, n ∈ order ↔ memo.contains n = false ∧ library.InCone root n := by
  have hroots : ∀ n ∈ [root], n < library.size := by simpa using hroot
  obtain ⟨order, horder, htopological, hmem⟩ :=
    (ranked_pendingFanins hlibrary).postOrder_leads (memo.contains ·) hroots
  refine ⟨order, horder, htopological, fun n => ?_⟩
  rw [hmem, ← leads_faninsOf, ← Dag.leadsAround_iff hclosed]
  simp only [List.mem_singleton, exists_eq_left]

/-- Since the memo was `memo₀`, the nodes of `order` have been copied, each by the call that stands
at its place on the record. -/
structure Traced (library : Xag) (leaves : List Signal) (memo₀ : Memo) (order : List Nat)
    (c : Copy (Recorded σ)) : Prop where
  nodup : order.Nodup
  contains : ∀ n, c.memo.contains n = true ↔ n ∈ order ∨ memo₀.contains n = true
  keeps : memo₀.Extends c.memo
  builds : List.Forall₂ (fun n call => call.Builds library c.memo n) order c.target.calls
  sourced : Sourced leaves c.target.calls
  comesFrom : ∀ (n : Nat) (s : Signal), c.memo[n]? = some s → ComesFrom leaves c.target.calls s
  closed : ∀ n ∈ order, ∀ m ∈ faninsOf library n, c.memo.contains m = true

namespace Traced

variable {order : List Nat} {c : Copy (Recorded σ)}

theorem start {target : σ} (hmemo : ∀ (n : Nat) (s : Signal), memo₀[n]? = some s →
    ComesFrom leaves [] s) : Traced library leaves memo₀ [] ⟨memo₀, ⟨target, []⟩⟩ where
  nodup := List.nodup_nil
  contains := by simp
  keeps := .refl memo₀
  builds := .nil
  sourced := .nil
  comesFrom := hmemo
  closed := by simp

theorem resolve (h : Traced library leaves memo₀ order c) {x s : Signal}
    (hx : c.memo.resolve? x = .ok s) : ComesFrom leaves c.target.calls s := by
  obtain ⟨t, ht, rfl⟩ := Memo.resolve?_eq_ok.mp hx
  exact (h.comesFrom _ t ht).complementIf _

end Traced

variable [Network σ]

theorem addNode_eq_ok {c c' : Copy σ} {n : Nat} (h : addNode library c n = .ok c') :
    ∃ (kind : GateKind) (x y s t r : Signal) (target : σ),
      library.nodes[n]? = some (kind.node x y) ∧ c.memo.resolve? x = .ok s ∧
      c.memo.resolve? y = .ok t ∧ kind.request? c.target s t = .ok (r, target) ∧
      c' = ⟨c.memo.insert n r, target⟩ := by
  obtain ⟨memo, g⟩ := c
  unfold addNode at h
  obtain ⟨node, hnode, h⟩ := bind_eq_ok.mp h
  have hread : library.nodes[n]? = some node := by
    unfold Xag.node? at hnode
    cases hread : library.nodes[n]? with
    | none =>
      rw [hread] at hnode
      cases hnode
    | some node' =>
      rw [hread] at hnode
      rw [Except.ok.inj hnode]
  cases node with
  | constant => cases h
  | input i => cases h
  | and x y =>
    obtain ⟨s, hs, h⟩ := bind_eq_ok.mp h
    obtain ⟨t, ht, h⟩ := bind_eq_ok.mp h
    obtain ⟨⟨r, target⟩, hr, h⟩ := bind_eq_ok.mp h
    exact ⟨.and, x, y, s, t, r, target, hread, hs, ht, hr, (Except.ok.inj h).symm⟩
  | xor x y =>
    obtain ⟨s, hs, h⟩ := bind_eq_ok.mp h
    obtain ⟨t, ht, h⟩ := bind_eq_ok.mp h
    obtain ⟨⟨r, target⟩, hr, h⟩ := bind_eq_ok.mp h
    exact ⟨.xor, x, y, s, t, r, target, hread, hs, ht, hr, (Except.ok.inj h).symm⟩

namespace Traced

variable {order : List Nat} {c c' : Copy (Recorded σ)}

theorem addNode (h : Traced library leaves memo₀ order c) {n : Nat}
    (hn : c.memo.contains n = false) (hadd : Copy.addNode library c n = .ok c') :
    Traced library leaves memo₀ (order ++ [n]) c' ∧ c.memo.Extends c'.memo := by
  obtain ⟨kind, x, y, s, t, r, target, hnode, hx, hy, hrequest, rfl⟩ := addNode_eq_ok hadd
  obtain ⟨g, -, rfl⟩ := Recorded.exists_of_request? hrequest
  have hextends : c.memo.Extends (c.memo.insert n r) := .insert hn r
  have hcontains : ∀ k, (c.memo.insert n r).contains k = true ↔ k = n ∨ c.memo.contains k = true :=
    fun k => by rw [Std.HashMap.contains_insert, Bool.or_eq_true, beq_iff_eq, Eq.comm (a := n)]
  have hnotin : n ∉ order := by
    intro hmem
    rw [(h.contains n).mpr (Or.inl hmem)] at hn
    cases hn
  refine ⟨⟨?_, ?_, h.keeps.trans hextends, ?_, ?_, ?_, ?_⟩, hextends⟩
  · exact List.nodup_append.mpr ⟨h.nodup, List.nodup_singleton n, by
      rintro k hk _ hk' rfl
      exact hnotin (List.mem_singleton.mp hk' ▸ hk)⟩
  · intro k
    rw [hcontains, h.contains, List.mem_append, List.mem_singleton]
    tauto
  · exact Call.builds_concat h.builds hn hnode hx hy
  · exact .concat h.sourced (h.resolve hx) (h.resolve hy)
  · intro k u hu
    rw [Std.HashMap.getElem?_insert] at hu
    split_ifs at hu
    · refine ⟨u, false, (Signal.complementIf_false u).symm, Or.inr (Or.inr ?_)⟩
      exact ⟨_, List.mem_append_right _ List.mem_cons_self, (Option.some.inj hu).symm⟩
    · exact (h.comesFrom k u hu).append _
  · intro k hk m hm
    rw [hcontains]
    refine Or.inr ?_
    rcases List.mem_append.mp hk with hk | hk
    · exact h.closed k hk m hm
    · obtain rfl := List.mem_singleton.mp hk
      obtain ⟨node, hread, u, hu, rfl⟩ := mem_faninsOf.mp hm
      obtain rfl := Option.some.inj (hnode.symm.trans hread)
      rcases kind.mem_fanins.mp hu with rfl | rfl
      · exact Memo.contains_of_resolve? hx
      · exact Memo.contains_of_resolve? hy

theorem addCone (h : Traced library leaves memo₀ order c) (hlibrary : library.WellFormed)
    (hmemo : ∀ n, memo₀.contains n = true → faninsOf library n = []) {root : Nat}
    (hroot : root < library.size) {s : Signal} (hadd : Copy.addCone library c root = .ok (s, c')) :
    ∃ order', Traced library leaves memo₀ order' c' ∧ c.memo.Extends c'.memo ∧
      c'.memo[root]? = some s ∧
      ∀ n, n ∈ order' ↔ n ∈ order ∨ memo₀.contains n = false ∧ library.InCone root n := by
  obtain ⟨later, hlater, hrun, hs⟩ := addCone_eq_ok.mp hadd
  have hclosed : ∀ n, c.memo.contains n = true → ∀ m ∈ faninsOf library n,
      c.memo.contains m = true := by
    intro n hn m hm
    rcases (h.contains n).mp hn with hn | hn
    · exact h.closed n hn m hm
    · simp [hmemo n hn] at hm
  obtain ⟨later', hpost, htopological, hlast⟩ := exists_coneOrder hlibrary hclosed hroot
  obtain rfl : later = later' := Except.ok.inj (hlater.symm.trans hpost)
  obtain ⟨htraced, hextends⟩ : Traced library leaves memo₀ (order ++ later) c' ∧
      c.memo.Extends c'.memo := by
    refine htopological.foldlM_keeps (P := fun later c₁ =>
      Traced library leaves memo₀ (order ++ later) c₁ ∧ c.memo.Extends c₁.memo) hrun ?_ ?_
    · rw [List.append_nil]
      exact ⟨h, .refl c.memo⟩
    · rintro later n c₁ c₂ ⟨htraced, hextends⟩ - hdone hnew hstep
      have hfresh : c₁.memo.contains n = false := by
        have hbefore : ¬(n ∈ order ∨ memo₀.contains n = true) := by
          rw [← h.contains, hdone]
          exact Bool.false_ne_true
        rw [← Bool.not_eq_true, htraced.contains, List.mem_append]
        tauto
      obtain ⟨htraced', hextends'⟩ := htraced.addNode hfresh hstep
      rw [← List.append_assoc]
      exact ⟨htraced', hextends.trans hextends'⟩
  refine ⟨order ++ later, htraced, hextends, hs, fun n => ?_⟩
  rw [List.mem_append, hlast, ← Bool.not_eq_true, h.contains, ← Bool.not_eq_true]
  tauto

end Traced

end Copy
end LogicResynthesis
