import LogicResynthesis.Proofs.Npn.TransformGroup
import LogicResynthesis.Proofs.Resynthesis.Repetition
import LogicResynthesis.Proofs.Xag.NormalForm

/-!
# Copies in a fresh XAG

Over four distinct inputs library cones are copied one to one. No copied gate
has equal or constant operands, as those of a library gate are two nodes other
than the constant, and two copies with the same operands are copies of the same
gate, as the library has no gate twice. So there are as many gates of each kind
as in the cones.
-/

namespace LogicResynthesis

namespace GateKind

/-- An operand as the gate has it; the complements of XOR operands move to the output. -/
def operand : GateKind → Signal → Signal
  | and, s => s
  | xor, s => s.regular

@[simp] theorem node_operand (kind : GateKind) (s : Signal) : (kind.operand s).node = s.node := by
  cases kind <;> rfl

theorem node_inj {kind kind' : GateKind} {x y u v : Signal} (h : kind.node x y = kind'.node u v) :
    kind = kind' ∧ x = u ∧ y = v := by
  cases kind <;> cases kind'
  · obtain ⟨rfl, rfl⟩ := Xag.Node.and.inj h
    exact ⟨rfl, rfl, rfl⟩
  · cases h
  · cases h
  · obtain ⟨rfl, rfl⟩ := Xag.Node.xor.inj h
    exact ⟨rfl, rfl, rfl⟩

end GateKind

namespace Xag

variable {g g' : Xag} {x y r : Signal} {kind : GateKind}

def gatesOf (g : Xag) (kind : GateKind) : Set Nat := {n | g.kindAt? n = some kind}

theorem nodes_request? (h : kind.request? g x y = .ok (r, g')) :
    g'.nodes = g.nodes ∨
      ∃ a b, g'.nodes = g.nodes.push (kind.node a b) ∧ r.node = g.nodes.size := by
  cases kind with
  | and =>
    have hadd : g.addAnd x y = (r, g') := Except.ok.inj h
    have hnodes := nodes_addAnd g x y
    rwa [hadd] at hnodes
  | xor =>
    have hadd : g.addXor x y = (r, g') := Except.ok.inj h
    have hnodes := nodes_addXor g x y
    rwa [hadd] at hnodes

theorem WellFormed.request?_gate (h : g.WellFormed) (hx : g.Has x) (hy : g.Has y)
    (hrequest : kind.request? g x y = .ok (r, g')) (hne : x.node ≠ y.node) (hxzero : x.node ≠ 0)
    (hyzero : y.node ≠ 0) :
    g'.nodes[r.node]? = some (kind.node (kind.operand x) (kind.operand y)) ∨
      g'.nodes[r.node]? = some (kind.node (kind.operand y) (kind.operand x)) := by
  cases kind with
  | and =>
    have hadd : g.addAnd x y = (r, g') := Except.ok.inj hrequest
    have hgate := h.addAnd_gate hx hy hne hxzero hyzero
    rwa [hadd] at hgate
  | xor =>
    have hadd : g.addXor x y = (r, g') := Except.ok.inj hrequest
    have hgate := h.addXor_gate hx hy hne hxzero hyzero
    rwa [hadd] at hgate

/-- The call is answered as recorded, and nothing changes. -/
def AnswersAgain (g : Xag) (call : Call) : Prop :=
  call.kind.request? g call.left call.right = .ok (call.answer, g)

theorem kindAt?_of_performed {calls : List Call} (h : Performed g calls g') {n : Nat}
    (hn : g'.kindAt? n = some kind) :
    g.kindAt? n = some kind ∨ ∃ call ∈ calls, call.kind = kind ∧ call.answer.node = n := by
  induction h with
  | nil => exact .inl hn
  | @concat calls call h₀ h₁ _ hrequest ih =>
    have hlater : h₀.kindAt? n = some kind → g.kindAt? n = some kind ∨
        ∃ call' ∈ calls ++ [call], call'.kind = kind ∧ call'.answer.node = n := fun hn =>
      (ih hn).imp_right fun ⟨call', hcall', hkind⟩ => ⟨call', List.mem_append_left _ hcall', hkind⟩
    rcases nodes_request? hrequest with hnodes | ⟨a, b, hnodes, hlast⟩ <;>
      rw [kindAt?, hnodes] at hn
    · exact hlater hn
    · obtain ⟨node, hread, hkind⟩ := Option.bind_eq_some_iff.mp hn
      rcases getElem?_push_or hread with hread | ⟨rfl, rfl⟩
      · exact hlater (Option.bind_eq_some_iff.mpr ⟨node, hread, hkind⟩)
      · rw [GateKind.kind?_node, Option.some.injEq] at hkind
        exact .inr ⟨call, by simp, hkind, hlast⟩

end Xag

theorem Performed.answersAgain {g g' : Xag} {leaves : List Signal} {calls : List Call}
    (h : Performed g calls g') (hsourced : Sourced leaves calls) (hg : g.Reachable)
    (hleaves : ∀ s ∈ leaves, g.Has s) :
    g'.Reachable ∧ g.GrowsTo g' ∧ ∀ call ∈ calls, call.Settled Xag.AnswersAgain g' := by
  obtain ⟨hreachable, hgrows, hsettled⟩ := h.settled (S := fun _ _ => True)
    (fun _ _ _ _ _ _ _ _ => trivial) (fun _ _ _ _ _ _ _ _ _ => trivial) hsourced hg hleaves
  refine ⟨hreachable, hgrows, fun call hcall => ?_⟩
  obtain ⟨hl, hr, ha, -⟩ := hsettled call hcall
  exact ⟨hl, hr, ha, h.request?_again (.refl g') call hcall⟩

def Memo.targetNode (memo : Memo) (n : Nat) : Nat := (memo[n]?.map (·.node)).getD 0

theorem Memo.targetNode_eq {memo : Memo} {n : Nat} {s : Signal} (h : memo[n]? = some s) :
    memo.targetNode n = s.node := by
  simp [targetNode, h]

theorem Xag.kindAt?_eq {g : Xag} {n : Nat} {kind : GateKind} {x y : Signal}
    (hn : g.nodes[n]? = some (kind.node x y)) : g.kindAt? n = some kind := by
  simp [kindAt?, hn]

theorem Xag.Normal.operands {g : Xag} (h : g.Normal) {kind : GateKind} {n : Nat} {x y : Signal}
    (hn : g.nodes[n]? = some (kind.node x y)) :
    0 < x.node ∧ x.node < y.node ∧ y.node < n ∧ kind.operand x = x ∧ kind.operand y = y := by
  have hlt : y.node < n := h.ordered n _ hn y (kind.mem_fanins.mpr (.inr rfl))
  have hnormal := h.normal n _ hn
  cases kind with
  | and => exact ⟨hnormal.1, hnormal.2, hlt, rfl, rfl⟩
  | xor =>
    obtain ⟨hpos, hxy, hx, hy⟩ := hnormal
    refine ⟨hpos, hxy, hlt, ?_, ?_⟩
    · exact congrArg (Signal.mk x.node) hx.symm
    · exact congrArg (Signal.mk y.node) hy.symm

/-- The node is the constant, an input or in the cone of one of the signals. -/
def Xag.Covered (library : Xag) (signals : List Signal) (n : Nat) : Prop :=
  n < library.size ∧
    ((library.kindAt? n).isSome = true → ∃ s ∈ signals, library.InCone s.node n)

/-- The constant and the inputs have different target nodes in the memo, and the gates in the cones
are built by calls that the target answers again. -/
structure CopiedInto (library : Xag) (memo : Memo) (signals : List Signal) (g : Xag) : Prop where
  source : library.Normal
  target : g.Normal
  constant : memo[0]? = some (.constant false)
  input : ∀ i n : Nat, library.inputs[i]? = some n →
    ∃ s j, memo[n]? = some s ∧ g.nodes[s.node]? = some (.input j)
  input_injective : ∀ (i j n m : Nat) (s t : Signal), library.inputs[i]? = some n →
    library.inputs[j]? = some m → memo[n]? = some s → memo[m]? = some t → s.node = t.node → n = m
  gate : ∀ n, (library.kindAt? n).isSome = true → (∃ s ∈ signals, library.InCone s.node n) →
    ∃ call : Call, call.Builds library memo n ∧ call.Settled Xag.AnswersAgain g

/-- Below `N` different library nodes have different target nodes. -/
def InjectiveBelow (library : Xag) (memo : Memo) (signals : List Signal) (N : Nat) : Prop :=
  ∀ (n m : Nat) (s t : Signal), n < N → m < N → library.Covered signals n →
    library.Covered signals m → memo[n]? = some s → memo[m]? = some t → s.node = t.node → n = m

namespace CopiedInto

variable {library g : Xag} {memo : Memo} {signals : List Signal} {n m N : Nat} {s t : Signal}

theorem covered_zero (h : CopiedInto library memo signals g) : library.Covered signals 0 := by
  refine ⟨(Array.getElem?_eq_some_iff.mp h.source.zero).1, fun hkind => ?_⟩
  simp [Xag.kindAt?, h.source.zero, Xag.Node.kind?] at hkind

theorem covered_operand (h : CopiedInto library memo signals g) {kind : GateKind} {x y z : Signal}
    (hn : library.nodes[n]? = some (kind.node x y)) (hcovered : library.Covered signals n)
    (hz : z = x ∨ z = y) : library.Covered signals z.node := by
  have hfanin : z ∈ (kind.node x y).fanins := kind.mem_fanins.mpr hz
  refine ⟨Nat.lt_trans (h.source.ordered n _ hn z hfanin) hcovered.1, fun _ => ?_⟩
  obtain ⟨s, hs, hcone⟩ := hcovered.2 (by simp [Xag.kindAt?, hn])
  exact ⟨s, hs, hcone.tail ⟨_, hn, z, hfanin, rfl⟩⟩

/-- What a library node is, and what its target node is. -/
inductive Image (library : Xag) (memo : Memo) (n : Nat) (node : Xag.Node) : Prop
  | constant (hn : n = 0) (hnode : node = .constant)
  | input {i j : Nat} (hn : library.inputs[i]? = some n) (hnode : node = .input j)
  | gate {kind : GateKind} {x y u v : Signal} (hn : library.nodes[n]? = some (kind.node x y))
      (hx : memo.resolve? x = .ok u) (hy : memo.resolve? y = .ok v)
      (hnode : node = kind.node (kind.operand u) (kind.operand v) ∨
        node = kind.node (kind.operand v) (kind.operand u))

theorem gate_answer (h : CopiedInto library memo signals g)
    (hbelow : InjectiveBelow library memo signals n) (hcovered : library.Covered signals n)
    {call : Call} (hsettled : call.Settled Xag.AnswersAgain g) {x y : Signal}
    (hn : library.nodes[n]? = some (call.kind.node x y)) (hx : memo.resolve? x = .ok call.left)
    (hy : memo.resolve? y = .ok call.right) :
    ∃ node, g.nodes[call.answer.node]? = some node ∧ Image library memo n node := by
  obtain ⟨hpos, hxy, hyn, -, -⟩ := h.source.operands hn
  have hxn := Nat.lt_trans hxy hyn
  have hzero : 0 < n := Nat.zero_lt_of_lt hyn
  have hcx := h.covered_operand hn hcovered (.inl rfl)
  have hcy := h.covered_operand hn hcovered (.inr rfl)
  obtain ⟨u, hu, hleft⟩ := Memo.resolve?_eq_ok.mp hx
  obtain ⟨v, hv, hright⟩ := Memo.resolve?_eq_ok.mp hy
  have hul : call.left.node = u.node := by rw [hleft]; rfl
  have hvr : call.right.node = v.node := by rw [hright]; rfl
  have hne : call.left.node ≠ call.right.node := by
    rw [hul, hvr]
    exact fun huv => Nat.ne_of_lt hxy (hbelow _ _ u v hxn hyn hcx hcy hu hv huv)
  have hleftzero : call.left.node ≠ 0 := by
    rw [hul]
    exact fun hu0 => Nat.ne_of_gt hpos (hbelow _ 0 u _ hxn hzero hcx h.covered_zero hu h.constant hu0)
  have hrightzero : call.right.node ≠ 0 := by
    rw [hvr]
    exact fun hv0 => Nat.ne_of_gt (Nat.lt_trans hpos hxy)
      (hbelow _ 0 v _ hyn hzero hcy h.covered_zero hv h.constant hv0)
  rcases h.target.toWellFormed.request?_gate hsettled.left hsettled.right hsettled.settled hne
    hleftzero hrightzero with hnode | hnode
  · exact ⟨_, hnode, .gate hn hx hy (.inl rfl)⟩
  · exact ⟨_, hnode, .gate hn hx hy (.inr rfl)⟩

theorem exists_image (h : CopiedInto library memo signals g)
    (hbelow : InjectiveBelow library memo signals n) (hn : library.Covered signals n) :
    ∃ s node, memo[n]? = some s ∧ g.nodes[s.node]? = some node ∧ Image library memo n node := by
  have hgate : (library.kindAt? n).isSome = true → ∃ s node, memo[n]? = some s ∧
      g.nodes[s.node]? = some node ∧ Image library memo n node := by
    intro hkind
    obtain ⟨call, ⟨⟨x, y, hread, hx, hy⟩, hanswer⟩, hsettled⟩ := h.gate n hkind (hn.2 hkind)
    obtain ⟨node, hnode, himage⟩ := h.gate_answer hbelow hn hsettled hread hx hy
    exact ⟨_, node, hanswer, hnode, himage⟩
  obtain ⟨node, hnode⟩ : ∃ node, library.nodes[n]? = some node :=
    ⟨_, Array.getElem?_eq_getElem hn.1⟩
  cases node with
  | constant =>
    obtain rfl := h.source.constant_only n hnode
    exact ⟨_, _, h.constant, h.target.zero, .constant rfl rfl⟩
  | input i =>
    have hinput := (h.source.input_iff i n).mpr hnode
    obtain ⟨s, j, hs, hj⟩ := h.input i n hinput
    exact ⟨s, _, hs, hj, .input hinput rfl⟩
  | and x y => exact hgate (by simp [Xag.kindAt?, hnode, Xag.Node.kind?])
  | xor x y => exact hgate (by simp [Xag.kindAt?, hnode, Xag.Node.kind?])

theorem Image.kind? (h : CopiedInto library memo signals g) {node : Xag.Node}
    (himage : Image library memo n node) : node.kind? = library.kindAt? n := by
  cases himage with
  | constant hn hnode =>
    rw [hn, hnode, Xag.kindAt?, h.source.zero]
    rfl
  | @input i j hn hnode =>
    rw [hnode, Xag.kindAt?, (h.source.input_iff i n).mp hn]
    rfl
  | gate hn _ _ hnode =>
    rw [Xag.kindAt?, hn]
    rcases hnode with rfl | rfl <;> simp

theorem operand_eq (hN : InjectiveBelow library memo signals N) {kind : GateKind}
    {x y u v : Signal} (hx : x.node < N) (hy : y.node < N) (hcx : library.Covered signals x.node)
    (hcy : library.Covered signals y.node) (hu : memo.resolve? x = .ok u)
    (hv : memo.resolve? y = .ok v) (hplain : kind.operand x = x) (hplain' : kind.operand y = y)
    (huv : kind.operand u = kind.operand v) : x = y := by
  obtain ⟨s, hs, rfl⟩ := Memo.resolve?_eq_ok.mp hu
  obtain ⟨t, ht, rfl⟩ := Memo.resolve?_eq_ok.mp hv
  have hst : s.node = t.node := by simpa [Signal.complementIf] using congrArg Signal.node huv
  have hnode := hN _ _ s t hx hy hcx hcy hs ht hst
  rw [← hnode, hs] at ht
  obtain rfl := Option.some.inj ht
  cases kind with
  | and =>
    have hnegated : (s.negated ^^ x.negated) = (s.negated ^^ y.negated) :=
      congrArg Signal.negated huv
    rw [Bool.xor_right_inj] at hnegated
    rw [Signal.mk.injEq]
    exact ⟨hnode, hnegated⟩
  | xor =>
    rw [← hplain, ← hplain']
    exact congrArg (Signal.mk · false) hnode

/-- Gates with one copy are one gate: their operands have the same copies, which are not
exchanged as the operands of both are in order. -/
theorem gate_eq (h : CopiedInto library memo signals g)
    (hN : InjectiveBelow library memo signals N) (hnN : n ≤ N) (hmN : m ≤ N)
    (hcn : library.Covered signals n) (hcm : library.Covered signals m) {kind : GateKind}
    {x y x' y' u v u' v' : Signal} (hn : library.nodes[n]? = some (kind.node x y))
    (hm : library.nodes[m]? = some (kind.node x' y')) (hx : memo.resolve? x = .ok u)
    (hy : memo.resolve? y = .ok v) (hx' : memo.resolve? x' = .ok u')
    (hy' : memo.resolve? y' = .ok v')
    (hsame : kind.operand u = kind.operand u' ∧ kind.operand v = kind.operand v' ∨
      kind.operand u = kind.operand v' ∧ kind.operand v = kind.operand u') : n = m := by
  obtain ⟨-, hxy, hyn, hpx, hpy⟩ := h.source.operands hn
  obtain ⟨-, hxy', hyn', hpx', hpy'⟩ := h.source.operands hm
  have hcx := h.covered_operand hn hcn (.inl rfl)
  have hcy := h.covered_operand hn hcn (.inr rfl)
  have hcx' := h.covered_operand hm hcm (.inl rfl)
  have hcy' := h.covered_operand hm hcm (.inr rfl)
  rcases hsame with ⟨hu, hv⟩ | ⟨hu, hv⟩
  · obtain rfl := operand_eq hN (by omega) (by omega) hcx hcx' hx hx' hpx hpx' hu
    obtain rfl := operand_eq hN (by omega) (by omega) hcy hcy' hy hy' hpy hpy' hv
    have hgate : (kind.node x y).IsGate := by cases kind <;> trivial
    exact h.source.gate_unique hgate hn hm
  · obtain rfl := operand_eq hN (by omega) (by omega) hcx hcy' hx hy' hpx hpy' hu
    obtain rfl := operand_eq hN (by omega) (by omega) hcy hcx' hy hx' hpy hpx' hv
    exact absurd hxy (Nat.lt_asymm hxy')

/-- Two nodes with one copy are one: both are the constant, inputs or gates, as the copy is. -/
theorem Image.eq (h : CopiedInto library memo signals g) (hN : InjectiveBelow library memo signals N)
    (hnN : n ≤ N) (hmN : m ≤ N) (hcn : library.Covered signals n) (hcm : library.Covered signals m)
    (hs : memo[n]? = some s) (ht : memo[m]? = some t) (hst : s.node = t.node) {node : Xag.Node}
    (himage : Image library memo n node) (himage' : Image library memo m node) : n = m := by
  have hkind := himage.kind? h
  have hkind' := himage'.kind? h
  cases himage with
  | constant hn hnode =>
    cases himage' with
    | constant hm _ => rw [hn, hm]
    | input _ hnode' => cases hnode.symm.trans hnode'
    | gate hm =>
      rw [hnode, Xag.kindAt?_eq hm] at hkind'
      cases hkind'
  | input hn hnode =>
    cases himage' with
    | constant _ hnode' => cases hnode.symm.trans hnode'
    | input hm _ => exact h.input_injective _ _ n m s t hn hm hs ht hst
    | gate hm =>
      rw [hnode, Xag.kindAt?_eq hm] at hkind'
      cases hkind'
  | gate hn hx hy hnode =>
    rw [Xag.kindAt?_eq hn] at hkind
    cases himage' with
    | constant _ hnode' =>
      rw [hnode'] at hkind
      cases hkind
    | input _ hnode' =>
      rw [hnode'] at hkind
      cases hkind
    | gate hm hx' hy' hnode' =>
      rw [hkind, Xag.kindAt?_eq hm] at hkind'
      obtain rfl := Option.some.inj hkind'
      refine h.gate_eq hN hnN hmN hcn hcm hn hm hx hy hx' hy' ?_
      rcases hnode with rfl | rfl <;> rcases hnode' with hnode' | hnode' <;>
        obtain ⟨-, hfirst, hsecond⟩ := GateKind.node_inj hnode'
      · exact .inl ⟨hfirst, hsecond⟩
      · exact .inr ⟨hfirst, hsecond⟩
      · exact .inr ⟨hsecond, hfirst⟩
      · exact .inl ⟨hsecond, hfirst⟩

theorem injectiveBelow (h : CopiedInto library memo signals g) (N : Nat) :
    InjectiveBelow library memo signals N := by
  induction N with
  | zero => exact fun n _ _ _ hn => absurd hn (Nat.not_lt_zero n)
  | succ N ih =>
    intro n m s t hn hm hcn hcm hs ht hst
    have hbelow : ∀ k, k < N + 1 → InjectiveBelow library memo signals k :=
      fun k hk i j u v hi hj => ih i j u v (by omega) (by omega)
    obtain ⟨s', node, hs', hnode, himage⟩ := h.exists_image (hbelow n hn) hcn
    obtain ⟨t', node', ht', hnode', himage'⟩ := h.exists_image (hbelow m hm) hcm
    obtain rfl := Option.some.inj (hs.symm.trans hs')
    obtain rfl := Option.some.inj (ht.symm.trans ht')
    rw [← hst] at hnode'
    obtain rfl := Option.some.inj (hnode.symm.trans hnode')
    exact himage.eq h ih (by omega) (by omega) hcn hcm hs ht hst himage'

theorem injective (h : CopiedInto library memo signals g) (hn : library.Covered signals n)
    (hm : library.Covered signals m) (hs : memo[n]? = some s) (ht : memo[m]? = some t)
    (hst : s.node = t.node) : n = m :=
  h.injectiveBelow (max n m + 1) n m s t (by omega) (by omega) hn hm hs ht hst

theorem exists_kindAt? (h : CopiedInto library memo signals g) (hn : library.Covered signals n) :
    ∃ s, memo[n]? = some s ∧ g.kindAt? s.node = library.kindAt? n := by
  obtain ⟨s, node, hs, hnode, himage⟩ := h.exists_image (h.injectiveBelow n) hn
  refine ⟨s, hs, ?_⟩
  rw [← himage.kind? h, Xag.kindAt?, hnode]
  rfl

end CopiedInto

theorem exists_of_forall₂ {α β : Type} {R : α → β → Prop} {as : List α} {bs : List β}
    (h : List.Forall₂ R as bs) {a : α} (ha : a ∈ as) : ∃ b ∈ bs, R a b := by
  induction h with
  | nil => simp at ha
  | @cons a' b' _ _ hab _ ih =>
    rcases List.mem_cons.mp ha with rfl | ha
    · exact ⟨b', List.mem_cons_self, hab⟩
    · obtain ⟨b, hb, hR⟩ := ih ha
      exact ⟨b, List.mem_cons_of_mem _ hb, hR⟩

theorem Xag.WellFormed.lt_size_of_inCone {g : Xag} (h : g.WellFormed) {n m : Nat} (hn : n < g.size)
    (hcone : g.InCone n m) : m < g.size := by
  induction hcone with
  | refl => exact hn
  | tail _ hstep ih =>
    obtain ⟨node, hnode, s, hs, rfl⟩ := hstep
    exact Nat.lt_trans (h.ordered _ node hnode s hs) ih

theorem Xag.WellFormed.nodup_inputs {g : Xag} (h : g.WellFormed) : g.inputs.toList.Nodup := by
  refine List.nodup_iff_getElem?_ne_getElem?.mpr fun i j hij hj hsame => ?_
  have hnode : g.inputs[j]? = some g.inputs[j] := Array.getElem?_eq_getElem (by simpa using hj)
  rw [Array.getElem?_toList, Array.getElem?_toList, hnode] at hsame
  have hinput := ((h.input_iff i _).mp hsame).symm.trans ((h.input_iff j _).mp hnode)
  exact Nat.ne_of_lt hij (Xag.Node.input.inj (Option.some.inj hinput))

namespace Engine

open Npn (ClassTable Transform canonical)

/-- Four signals on the four inputs of a graph, on each input one. -/
structure OnInputs (g : Xag) (leaves : List Signal) : Prop where
  size : g.inputs.size = 4
  nodes : (leaves.map (·.node)).Perm g.inputs.toList

namespace OnInputs

variable {g : Xag} {leaves : List Signal}

theorem length (h : OnInputs g leaves) : leaves.length = 4 := by
  have hlength := h.nodes.length_eq
  rw [List.length_map, Array.length_toList] at hlength
  exact hlength.trans h.size

theorem leaf (h : OnInputs g leaves) (hg : g.WellFormed) (t : Transform) (i : Fin 4) :
    ∃ j, g.nodes[(leaf t leaves i).node]? = some (.input j) := by
  have hlt : (t.source i).val < leaves.length := by
    rw [h.length]
    exact (t.source i).isLt
  have hmem : leaves[(t.source i).val].node ∈ g.inputs.toList :=
    h.nodes.subset (List.mem_map_of_mem (List.getElem_mem hlt))
  obtain ⟨j, hj⟩ := List.mem_iff_getElem?.mp hmem
  refine ⟨j, ?_⟩
  rw [Array.getElem?_toList] at hj
  simpa [Engine.leaf, List.getElem?_eq_getElem hlt, Signal.complementIf] using
    (hg.input_iff j _).mp hj

theorem leaf_injective (h : OnInputs g leaves) (hg : g.WellFormed) {t : Transform}
    (ht : t.IsPermutation) {i j : Fin 4}
    (hij : (Engine.leaf t leaves i).node = (Engine.leaf t leaves j).node) : i = j := by
  have hlt : ∀ k : Fin 4, (t.source k).val < leaves.length := fun k => by
    rw [h.length]
    exact (t.source k).isLt
  have hnodup : (leaves.map (·.node)).Nodup := h.nodes.nodup_iff.mpr hg.nodup_inputs
  have hsame : (leaves.map (·.node))[(t.source i).val]? =
      (leaves.map (·.node))[(t.source j).val]? := by
    simpa [Engine.leaf, List.getElem?_eq_getElem (hlt _), Signal.complementIf] using hij
  exact ht (Fin.ext ((List.getElem?_inj (by simpa using hlt i) hnodup).mp hsame))

end OnInputs

theorem normal_of_ofWords {verbose : Bool} {words : List UInt32} {e : Engine}
    (h : ofWords verbose words = .ok e) : e.library.Normal := by
  obtain ⟨l, signals, -, -, hdecode, -⟩ := of_ofWords h
  obtain ⟨hreachable, -⟩ := IndexList.reachable_decodeInto .empty l
  rw [hdecode] at hreachable
  exact hreachable.normal

section Query

variable {e : Engine} {t : Transform} {leaves offered offers : List Signal} {calls : List Call}
  {order : List Nat} {memo : Memo}

theorem Materialised.copiedInto (h : e.Materialised t leaves offered offers calls order memo)
    (he : e.WellFormed) (hlibrary : e.library.Normal) (ht : t.IsPermutation) {g g' : Xag}
    (hg : g.WellFormed) (hleaves : OnInputs g leaves) (hg' : g'.Normal) (hgrows : g.GrowsTo g')
    (hsettled : ∀ call ∈ calls, call.Settled Xag.AnswersAgain g') :
    CopiedInto e.library memo offered g' := by
  have hfour : ∀ i n : Nat, e.library.inputs[i]? = some n → i < 4 := by
    intro i n hi
    have hlt := (Array.getElem?_eq_some_iff.mp hi).1
    rwa [he.inputs] at hlt
  refine ⟨hlibrary, hg', h.constant, ?_, ?_, ?_⟩
  · intro i n hi
    obtain ⟨j, hj⟩ := hleaves.leaf hg t ⟨i, hfour i n hi⟩
    exact ⟨_, j, h.input ⟨i, hfour i n hi⟩ n hi, getElem?_of_grown hgrows.nodes hj⟩
  · intro i j n m s u hi hj hs hu hsu
    obtain rfl := Option.some.inj (hs.symm.trans (h.input ⟨i, hfour i n hi⟩ n hi))
    obtain rfl := Option.some.inj (hu.symm.trans (h.input ⟨j, hfour j m hj⟩ m hj))
    obtain rfl : i = j := congrArg Fin.val (hleaves.leaf_injective hg ht hsu)
    exact Option.some.inj (hi.symm.trans hj)
  · intro n hkind hcone
    obtain ⟨call, hcall, hbuilds⟩ :=
      exists_of_forall₂ h.builds ((h.mem_order n).mpr ⟨hkind, hcone⟩)
    exact ⟨call, hbuilds, hsettled call hcall⟩

/-- The nodes in the cones of the signals have target nodes of their kind in the memo, and
different ones have different target nodes. -/
structure OneToOne (library : Xag) (memo : Memo) (signals : List Signal) (g : Xag) : Prop where
  kindAt? : ∀ n, (∃ s ∈ signals, library.InCone s.node n) →
    ∃ t, memo[n]? = some t ∧ g.kindAt? t.node = library.kindAt? n
  injective : ∀ (n m : Nat) (t u : Signal), (∃ s ∈ signals, library.InCone s.node n) →
    (∃ s ∈ signals, library.InCone s.node m) → memo[n]? = some t → memo[m]? = some u →
    t.node = u.node → n = m

theorem OneToOne.of_copiedInto {library g : Xag} {signals : List Signal}
    (h : CopiedInto library memo signals g) (hsignals : ∀ s ∈ signals, library.Has s) :
    OneToOne library memo signals g := by
  have hcovered : ∀ n, (∃ s ∈ signals, library.InCone s.node n) → library.Covered signals n := by
    rintro n ⟨s, hs, hcone⟩
    exact ⟨h.source.lt_size_of_inCone (hsignals s hs) hcone, fun _ => ⟨s, hs, hcone⟩⟩
  exact ⟨fun n hn => h.exists_kindAt? (hcovered n hn),
    fun n m t u hn hm => h.injective (hcovered n hn) (hcovered m hm)⟩

theorem OneToOne.ncard_gatesOf {g : Xag} (h : OneToOne e.library memo offered g)
    (hgates : e.Materialised t leaves offered offers calls order memo) {kind : GateKind}
    (hcalls : ∀ n ∈ g.gatesOf kind, ∃ call ∈ calls, call.kind = kind ∧ call.answer.node = n) :
    (g.gatesOf kind).ncard = (e.library.gatesBelow kind offered).ncard := by
  have hinjective : Set.InjOn memo.targetNode (e.library.gatesBelow kind offered) := by
    rintro n ⟨-, hn⟩ m ⟨-, hm⟩ hsame
    obtain ⟨s, hs, -⟩ := h.kindAt? n hn
    obtain ⟨u, hu, -⟩ := h.kindAt? m hm
    rw [Memo.targetNode_eq hs, Memo.targetNode_eq hu] at hsame
    exact h.injective n m s u hn hm hs hu hsame
  have honto : memo.targetNode '' e.library.gatesBelow kind offered = g.gatesOf kind := by
    ext k
    constructor
    · rintro ⟨n, ⟨hkind, hn⟩, rfl⟩
      obtain ⟨s, hs, hsame⟩ := h.kindAt? n hn
      rw [Memo.targetNode_eq hs]
      exact hsame.trans hkind
    · intro hk
      obtain ⟨call, hcall, rfl, rfl⟩ := hcalls k hk
      obtain ⟨n, hn, hbuilds⟩ := exists_of_forall₂ hgates.builds.flip hcall
      exact ⟨n, ⟨hbuilds.kindAt?, ((hgates.mem_order n).mp hn).2⟩, Memo.targetNode_eq hbuilds.answer⟩
  rw [← honto, hinjective.ncard_image]

theorem gatesOf_eq_empty {g : Xag} (h : g.Normal) (hgates : g.numGates = 0) (kind : GateKind) :
    g.gatesOf kind = ∅ := by
  refine Set.eq_empty_iff_forall_notMem.mpr fun n hn => ?_
  obtain ⟨node, hnode, hkind⟩ := Option.bind_eq_some_iff.mp hn
  have hnone : Xag.countGates g.nodes = 0 := h.numGates_eq.symm.trans hgates
  have hnot := Array.countP_eq_zero.mp hnone node (Array.mem_of_getElem? hnode)
  cases node with
  | constant => cases hkind
  | input i => cases hkind
  | and x y => exact hnot (decide_eq_true trivial)
  | xor x y => exact hnot (decide_eq_true trivial)

end Query

/-- In a graph of four inputs and no gates, a query over the four inputs adds as many gates of each
kind as there are in the cones of the library signals that it offers. The nodes of the cones have
different target nodes, those of the calls that built them. -/
theorem query_one_to_one {verbose : Bool} {words : List UInt32} {e : Engine}
    (h : ofWords verbose words = .ok e) {function : Table} (hinputs : function.inputs ≤ 4) {g : Xag}
    (hg : g.Reachable) (hgates : g.numGates = 0) {leaves : List Signal} (hleaves : OnInputs g leaves)
    (accept : List Signal → Bool) :
    ∃ f outcome calls order memo, function.toTable4? = some f ∧
      e.query function leaves accept g = .ok outcome ∧
      (e.offered f outcome = e.candidates f ∨ accept outcome.offers = false) ∧
      e.Requests function leaves accept g outcome calls ∧
      e.Materialised (ClassTable.standard.lookup f).transform leaves (e.offered f outcome)
        outcome.offers calls order memo ∧
      (∀ kind, (outcome.target.gatesOf kind).ncard = (g.gatesOf kind).ncard +
        (e.library.gatesBelow kind (e.offered f outcome)).ncard) ∧
      OneToOne e.library memo (e.offered f outcome) outcome.target := by
  have hengine := wellFormed_of_ofWords h
  have hhas : ∀ s ∈ leaves, g.Has s := by
    intro s hs
    obtain ⟨i, hi⟩ := List.mem_iff_getElem?.mp (hleaves.nodes.subset (List.mem_map_of_mem hs))
    rw [Array.getElem?_toList] at hi
    exact Xag.has_of_getElem? ((hg.wellFormed.input_iff i s.node).mp hi) s.negated
  obtain ⟨f, hf⟩ : ∃ f, function.toTable4? = some f := ⟨_, function.toTable4?_eq_some hinputs⟩
  obtain ⟨outcome, hquery⟩ : ∃ outcome, e.query function leaves accept g = .ok outcome :=
    hengine.exists_outcome hg hhas function accept
  obtain ⟨hstop, calls, order, memo, hcalls, hbuilt⟩ := hengine.query_materialised hf hquery
  obtain ⟨hreachable, hgrows, hsettled⟩ :=
    hcalls.performed.answersAgain hbuilt.sourced hg hhas
  have ht : (ClassTable.standard.lookup f).transform.IsPermutation := by
    rw [ClassTable.lookup_standard]
    exact Transform.isPermutation_of_mem_all (Npn.transform_canonical_mem f)
  have hcopied := hbuilt.copiedInto hengine (normal_of_ofWords h) ht hg.wellFormed hleaves
    hreachable.normal hgrows hsettled
  have honeToOne : OneToOne e.library memo (e.offered f outcome) outcome.target :=
    .of_copiedInto hcopied fun s hs => hengine.has_candidate (List.mem_of_mem_take hs)
  refine ⟨f, outcome, calls, order, memo, hf, hquery, hstop, hcalls, hbuilt, fun kind => ?_,
    honeToOne⟩
  have hempty := gatesOf_eq_empty hg.normal hgates kind
  rw [hempty, Set.ncard_empty, Nat.zero_add]
  refine honeToOne.ncard_gatesOf hbuilt fun n hn => ?_
  have hbefore : g.kindAt? n ≠ some kind := fun hn => Set.notMem_empty n (hempty ▸ hn)
  exact (Xag.kindAt?_of_performed hcalls.performed hn).resolve_left hbefore

/-- Both circuits are copied over permuted inputs, two of them complemented. -/
theorem query_one_to_one_two_circuits :
    ∃ index, ofWords false ClassIndex.twoCircuits.toWords = .ok (ofTwoCircuits index) ∧
      ∃ outcome memo, (ofTwoCircuits index).query (.ofTable4 ClassIndex.nor)
          [⟨3, true⟩, ⟨1, false⟩, ⟨4, false⟩, ⟨2, true⟩] (fun _ => true)
          Xag.empty.addInput.2.addInput.2.addInput.2.addInput.2 = .ok outcome ∧
        outcome.offers = [⟨5, false⟩, ⟨8, false⟩] ∧
        (∀ kind, (outcome.target.gatesOf kind).ncard = 2) ∧
        OneToOne (ofTwoCircuits index).library memo [⟨5, false⟩, ⟨8, true⟩] outcome.target := by
  obtain ⟨index, he, hget⟩ := exists_ofWords_two_circuits
  have hleaves : OnInputs Xag.empty.addInput.2.addInput.2.addInput.2.addInput.2
      [⟨3, true⟩, ⟨1, false⟩, ⟨4, false⟩, ⟨2, true⟩] := ⟨rfl, by decide⟩
  have hinputs : (Table.ofTable4 ClassIndex.nor).inputs ≤ 4 := Nat.le_refl 4
  have hreachable : Xag.empty.addInput.2.addInput.2.addInput.2.addInput.2.Reachable :=
    .addInput (.addInput (.addInput (.addInput .empty)))
  obtain ⟨f, outcome, -, -, memo, hf, hquery, hall, -, -, hcount, honeToOne⟩ :=
    query_one_to_one he hinputs hreachable rfl hleaves fun _ => true
  obtain rfl := Option.some.inj (hf.symm.trans (Table.toTable4?_ofTable4 ClassIndex.nor))
  have hoffered := (hall.resolve_right Bool.noConfusion).trans (candidates_nor hget)
  obtain ⟨hands, hxors⟩ := gatesBelow_two_circuits index
  have hrun : ((ofTwoCircuits index).query (.ofTable4 ClassIndex.nor)
      [⟨3, true⟩, ⟨1, false⟩, ⟨4, false⟩, ⟨2, true⟩] (fun _ => true)
      Xag.empty.addInput.2.addInput.2.addInput.2.addInput.2).map (·.offers) =
        .ok [⟨5, false⟩, ⟨8, false⟩] := by
    rw [query_nor hget]
    cbv
  rw [hquery] at hrun
  rw [hoffered] at hcount honeToOne
  refine ⟨index, he, outcome, memo, hquery, Except.ok.inj hrun, fun kind => ?_, honeToOne⟩
  rw [hcount, gatesOf_eq_empty hreachable.normal rfl, Set.ncard_empty, Nat.zero_add]
  cases kind with
  | and => rw [hands, Set.ncard_pair (by decide)]
  | xor => rw [hxors, Set.ncard_pair (by decide)]

end Engine

end LogicResynthesis
