import Mathlib.Data.List.Permutation
import LogicResynthesis.Proofs.IndexList.Decoding
import LogicResynthesis.Proofs.Resynthesis.CopyLoop

/-!
# What copying a cone adds to a memo

A memo is closed if it has the constant, the inputs and the fanins of its gates.
Copying a cone adds the gates of the cone that the memo did not have, each with the
answer to one request: for a gate of its kind, over the copies of its fanins. The
entries that were there stay as they are, and the memo is closed again.

Nothing else is asked of the target than to answer requests over its signals.
-/

namespace LogicResynthesis

/-- The constant, the inputs and the fanins of copied nodes have been copied. -/
structure Memo.Closed (library : Xag) (memo : Memo) : Prop where
  constant : memo.contains 0 = true
  input : ∀ n ∈ library.inputs, memo.contains n = true
  fanin : ∀ (n : Nat) (node : Xag.Node), library.nodes[n]? = some node →
    memo.contains n = true → ∀ s ∈ node.fanins, memo.contains s.node = true

/-- Requests over signals that are there are answered, the answers are there, and so is still what
was there before. -/
structure Serves {σ : Type} [Network σ] (Has : σ → Signal → Prop) : Prop where
  complementIf : ∀ {g : σ} {s : Signal}, Has g s → ∀ v, Has g (s.complementIf v)
  request : ∀ (kind : GateKind) {g : σ} {x y : Signal}, Has g x → Has g y →
    ∃ s g', kind.request? g x y = .ok (s, g') ∧ Has g' s ∧ ∀ t, Has g t → Has g' t

theorem serves_lawful {σ : Type} [Network σ] [LawfulNetwork σ] :
    Serves fun (g : σ) s => LawfulNetwork.Reachable g ∧ LawfulNetwork.Has g s where
  complementIf h v := ⟨h.1, LawfulNetwork.has_complementIf h.2 v⟩
  request kind g x y hx hy := by
    obtain ⟨s, g', hs, hreachable, hgrows, hhas⟩ := kind.request?_ok hx.1 hx.2 hy.2
    exact ⟨s, g', hs, ⟨hreachable, hhas⟩,
      fun t ht => ⟨hreachable, LawfulNetwork.has_of_grows hgrows ht.2⟩⟩

namespace Memo.Closed

variable {σ : Type} {library : Xag} {memo : Memo}

theorem started (h : memo.Closed library) (hlibrary : library.WellFormed) (target : σ) :
    Copy.Started library ⟨memo, target⟩ := by
  intro n node hnode hgate
  cases node with
  | constant =>
    obtain rfl := hlibrary.constant_only n hnode
    exact h.constant
  | input i => exact h.input n (Array.mem_of_getElem? ((hlibrary.input_iff i n).mpr hnode))
  | and x y => exact absurd trivial hgate
  | xor x y => exact absurd trivial hgate

theorem below (h : memo.Closed library) :
    ∀ n, memo.contains n = true → ∀ m ∈ Copy.faninsOf library n, memo.contains m = true := by
  intro n hn m hm
  obtain ⟨node, hnode, s, hs, rfl⟩ := Copy.mem_faninsOf.mp hm
  exact h.fanin n node hnode hn s hs

end Memo.Closed

namespace Copy

variable {σ : Type} [Network σ] {library : Xag} {Has : σ → Signal → Prop} {memo : Memo} {g : σ}
  {order : List Nat} {calls : List Call} {c : Copy σ} {n : Nat}

/-- Since the memo was `memo` and the target `g`, the nodes of `order` have been copied, each by the
call at its place. -/
structure Gained (library : Xag) (Has : σ → Signal → Prop) (memo : Memo) (g : σ)
    (order : List Nat) (calls : List Call) (c : Copy σ) : Prop where
  adds : Adds ⟨memo, g⟩ order c
  keeps : memo.Extends c.memo
  builds : List.Forall₂ (fun n call => call.Builds library c.memo n) order calls
  performed : Performed g calls c.target
  has : ∀ (n : Nat) (s : Signal), c.memo[n]? = some s → Has c.target s

theorem Gained.start (h : ∀ (n : Nat) (s : Signal), memo[n]? = some s → Has g s) :
    Gained library Has memo g [] [] ⟨memo, g⟩ where
  adds k := by simp
  keeps := .refl memo
  builds := .nil
  performed := .nil
  has := h

theorem Gained.resolve (h : Gained library Has memo g order calls c) (hHas : Serves Has)
    {x : Signal} (hx : c.memo.contains x.node = true) :
    ∃ s, c.memo.resolve? x = .ok s ∧ Has c.target s := by
  obtain ⟨t, ht⟩ := exists_of_contains hx
  exact ⟨_, Memo.resolve?_eq_ok.mpr ⟨t, ht, rfl⟩, hHas.complementIf (h.has _ t ht) _⟩

theorem Gained.addNode (h : Gained library Has memo g order calls c) (hHas : Serves Has)
    {node : Xag.Node} (hnode : library.nodes[n]? = some node) (hgate : node.IsGate)
    (hn : c.memo.contains n = false) (hfanins : ∀ s ∈ node.fanins, c.memo.contains s.node = true) :
    ∃ call c', Copy.addNode library c n = .ok c' ∧
      Gained library Has memo g (order ++ [n]) (calls ++ [call]) c' := by
  obtain ⟨kind, x, y, rfl⟩ := hgate.exists_kind
  obtain ⟨s, hs, hass⟩ := h.resolve hHas (hfanins x (kind.mem_fanins.mpr (.inl rfl)))
  obtain ⟨t, ht, hast⟩ := h.resolve hHas (hfanins y (kind.mem_fanins.mpr (.inr rfl)))
  obtain ⟨r, g', hr, hasr, hstill⟩ := hHas.request kind hass hast
  refine ⟨⟨kind, s, t, r⟩, _, addNode_eq hnode hs ht hr, ?_⟩
  constructor
  · exact h.adds.append fun _ => contains_insert_iff
  · exact h.keeps.trans (.insert hn r)
  · exact Call.builds_concat h.builds hn hnode hs ht
  · exact h.performed.concat hr
  · intro k u hu
    rw [Std.HashMap.getElem?_insert] at hu
    split_ifs at hu
    · obtain rfl := Option.some.inj hu
      exact hasr
    · exact hstill u (h.has k u hu)

theorem Gained.concat (h : Gained library Has memo g order calls c) (hHas : Serves Has)
    (hlibrary : library.WellFormed) (hmemo : memo.Closed library) (hn : n < library.size)
    (hdone : memo.contains n = false) (hnew : n ∉ order)
    (hbelow : ∀ m ∈ faninsOf library n, memo.contains m = true ∨ m ∈ order) :
    ∃ call c', Copy.addNode library c n = .ok c' ∧
      Gained library Has memo g (order ++ [n]) (calls ++ [call]) c' := by
  obtain ⟨node, hnode, hgate, hfanins⟩ := exists_gate_of_pending h.adds
    (h.adds.started (hmemo.started hlibrary g)) hn hdone hnew hbelow
  refine h.addNode hHas hnode hgate ?_ hfanins
  rw [← Bool.not_eq_true, h.adds n]
  simp [hdone, hnew]

/-- The cone of `root` has been added to the memo: the nodes of `order` are its gates that the memo
did not have, fanins first, and each is the answer to the call at its place. The calls, made in
order, lead from the one target to the other. -/
structure ConeAdded (library : Xag) (root : Nat) (memo : Memo) (g : σ) (order : List Nat)
    (calls : List Call) (memo' : Memo) (g' : σ) : Prop where
  mem_order : ∀ n, n ∈ order ↔ (library.kindAt? n).isSome = true ∧ library.InCone root n ∧
    memo.contains n = false
  topological : Dag.Topological library.size (faninsOf library) (memo.contains ·) order
  keeps : memo.Extends memo'
  contains : ∀ n, memo'.contains n = true ↔ n ∈ order ∨ memo.contains n = true
  closed : memo'.Closed library
  builds : List.Forall₂ (fun n call => call.Builds library memo' n) order calls
  performed : Performed g calls g'

theorem Gained.closed (h : Gained library Has memo g order calls c) (hmemo : memo.Closed library)
    (horder : Dag.Topological library.size (faninsOf library) (memo.contains ·) order) :
    c.memo.Closed library where
  constant := (h.adds 0).mpr (.inr hmemo.constant)
  input n hn := (h.adds n).mpr (.inr (hmemo.input n hn))
  fanin n node hnode hn s hs := by
    have hbelow : s.node ∈ faninsOf library n := mem_faninsOf.mpr ⟨node, hnode, s, hs, rfl⟩
    apply (h.adds s.node).mpr
    rcases (h.adds n).mp hn with hn | hn
    · exact (horder.mem_of_below n hn s.node hbelow).symm
    · exact .inr (hmemo.below n hn s.node hbelow)

theorem Gained.coneAdded (h : Gained library Has memo g order calls c) (hmemo : memo.Closed library)
    (horder : Dag.Topological library.size (faninsOf library) (memo.contains ·) order) {root : Nat}
    (hcone : ∀ n, n ∈ order ↔ memo.contains n = false ∧ library.InCone root n) :
    ConeAdded library root memo g order calls c.memo c.target where
  mem_order n := by
    constructor
    · intro hn
      obtain ⟨hmissing, hbelow⟩ := (hcone n).mp hn
      exact ⟨Call.isSome_kindAt?_of_builds h.builds n hn, hbelow, hmissing⟩
    · rintro ⟨-, hbelow, hmissing⟩
      exact (hcone n).mpr ⟨hmissing, hbelow⟩
  topological := horder
  keeps := h.keeps
  contains := h.adds
  closed := h.closed hmemo horder
  builds := h.builds
  performed := h.performed

theorem exists_gained (hHas : Serves Has) (hlibrary : library.WellFormed)
    (hmemo : memo.Closed library) (hhas : ∀ (n : Nat) (s : Signal), memo[n]? = some s → Has g s)
    (horder : Dag.Topological library.size (faninsOf library) (memo.contains ·) order) :
    ∃ c calls, order.foldlM (Copy.addNode library) ⟨memo, g⟩ = .ok c ∧
      Gained library Has memo g order calls c := by
  obtain ⟨c, hrun, calls, hgained⟩ := horder.foldlM_ok (f := Copy.addNode library)
    (P := fun order c => ∃ calls, Gained library Has memo g order calls c) ⟨[], .start hhas⟩
    fun order n c ⟨calls, hgained⟩ hn hdone hnew hbelow => by
      obtain ⟨call, c', hadd, hgained'⟩ :=
        hgained.concat hHas hlibrary hmemo hn hdone hnew hbelow
      exact ⟨c', hadd, calls ++ [call], hgained'⟩
  exact ⟨c, calls, hrun, hgained⟩

/-- In a library that decoding has led to, and over a closed memo of signals of the target, copying
a cone comes to an end. The stack is empty after at most one round for the root and three for each
new gate, and the memo has been extended by the cone. -/
theorem addCone_extends_memo (l : IndexList) {start library : Xag} (hstart : start.Reachable)
    {result : Except DecodeError (Array Signal)} (hdecode : l.decodeInto start = (result, library))
    {root : Nat} (hroot : root < library.size) {memo : Memo} (hmemo : memo.Closed library)
    {σ : Type} [Network σ] {Has : σ → Signal → Prop} (hHas : Serves Has) {g : σ}
    (hhas : ∀ (n : Nat) (s : Signal), memo[n]? = some s → Has g s) :
    ∃ s memo' g' order calls,
      addCone library ⟨memo, g⟩ root = .ok (s, ⟨memo', g'⟩) ∧ memo'[root]? = some s ∧
      (∀ k, 1 + 3 * order.length ≤ k →
        Loop.rounds library k ⟨[root], ⟨memo, g⟩⟩ = .ok ⟨[], ⟨memo', g'⟩⟩) ∧
      ConeAdded library root memo g order calls memo' g' ∧
      ∀ (n : Nat) (s : Signal), memo'[n]? = some s → Has g' s := by
  have hlibrary : library.WellFormed := by
    have hreachable := (IndexList.reachable_decodeInto hstart l).1
    rw [hdecode] at hreachable
    exact hreachable.wellFormed
  obtain ⟨order, horder, htopological, hcone⟩ := exists_coneOrder hlibrary hmemo.below hroot
  obtain ⟨⟨memo', g'⟩, calls, hrun, hgained⟩ :=
    exists_gained hHas hlibrary hmemo hhas htopological
  have hcopied : memo'.contains root = true := by
    apply (hgained.adds root).mpr
    by_cases hthere : memo.contains root = true
    · exact .inr hthere
    · exact .inl ((hcone root).mpr ⟨by simpa using hthere, .refl⟩)
  obtain ⟨s, hs⟩ := exists_of_contains hcopied
  have hadd : addCone library ⟨memo, g⟩ root = .ok (s, ⟨memo', g'⟩) :=
    addCone_eq_ok.mpr ⟨order, horder, hrun, hs⟩
  refine ⟨s, memo', g', order, calls, hadd, hs, fun k hk => ?_,
    hgained.coneAdded hmemo htopological hcone, hgained.has⟩
  rw [Loop.rounds_eq_addCone hlibrary hroot horder hk, hadd]
  rfl

/-- Gate 4 is an operand of gate 5, and both are of gate 6; gate 7 stands alone. -/
def sharedOperand : IndexList :=
  ⟨3, [(2, 4), (8, 6), (9, 10), (4, 6)], [13], by decide, by decide, by decide⟩

theorem nodes_sharedOperand : (sharedOperand.decodeInto Xag.empty).2.nodes =
    #[.constant, .input 0, .input 1, .input 2, .and ⟨1, false⟩ ⟨2, false⟩,
      .xor ⟨3, false⟩ ⟨4, false⟩, .and ⟨4, true⟩ ⟨5, false⟩, .and ⟨2, false⟩ ⟨3, false⟩] := by
  cbv

/-- The constant, the inputs and gate 4 have been copied, gate 4 into a complemented input. -/
def partialMemo : Memo :=
  .ofList [(0, .constant false), (1, ⟨1, false⟩), (2, ⟨2, false⟩), (3, ⟨1, true⟩), (4, ⟨2, true⟩)]

theorem closed_partialMemo : partialMemo.Closed (sharedOperand.decodeInto Xag.empty).2 where
  constant := by simp [partialMemo]
  input := by
    have hinputs : (sharedOperand.decodeInto Xag.empty).2.inputs = #[1, 2, 3] := by cbv
    rw [hinputs]
    simp [partialMemo]
  fanin n node hnode hn := by
    rw [nodes_sharedOperand] at hnode
    rcases n with _ | _ | _ | _ | _ | n
    all_goals simp [partialMemo] at hnode hn
    all_goals subst hnode
    all_goals simp [Xag.Node.fanins, partialMemo]

def sharingTarget : Aig.Builder :=
  (((Aig.Builder.new "target" true true).addInput "x").2.addInput "y").2

theorem has_partialMemo (n : Nat) (s : Signal) (h : partialMemo[n]? = some s) :
    LawfulNetwork.Reachable sharingTarget ∧ LawfulNetwork.Has sharingTarget s := by
  constructor
  · exact .addInput (.addInput (.new "target" true true) "x") "y"
  · simp only [partialMemo, Std.HashMap.ofList_cons, Std.HashMap.insertMany_cons,
      Std.HashMap.insertMany_nil, Std.HashMap.getElem?_insert, Std.HashMap.getElem?_empty] at h
    split_ifs at h <;> cases h <;>
      simp [LawfulNetwork.Has, Aig.Builder.Has, sharingTarget, Aig.Builder.new,
        Aig.Builder.addInput, Signal.constant]

/-- Gates 5 and 6 are copied over the entry of gate 4, which stays as it is. -/
theorem addCone_extends_memo_shared :
    partialMemo.Closed (sharedOperand.decodeInto Xag.empty).2 ∧
      ∃ s memo' g' order calls,
        addCone (sharedOperand.decodeInto Xag.empty).2 ⟨partialMemo, sharingTarget⟩ 6 =
          .ok (s, ⟨memo', g'⟩) ∧
        ConeAdded (sharedOperand.decodeInto Xag.empty).2 6 partialMemo sharingTarget order calls
          memo' g' ∧
        memo'[4]? = some ⟨2, true⟩ ∧ 4 ∉ order ∧ 5 ∈ order ∧ 6 ∈ order := by
  have hroot : 6 < (sharedOperand.decodeInto Xag.empty).2.size := by
    rw [Xag.size, nodes_sharedOperand]
    decide
  have hdecode : sharedOperand.decodeInto Xag.empty =
      ((sharedOperand.decodeInto Xag.empty).1, (sharedOperand.decodeInto Xag.empty).2) := rfl
  obtain ⟨s, memo', g', order, calls, hadd, -, -, hcone, -⟩ := addCone_extends_memo sharedOperand
    .empty hdecode hroot closed_partialMemo serves_lawful has_partialMemo
  refine ⟨closed_partialMemo, s, memo', g', order, calls, hadd, hcone, ?_, ?_, ?_, ?_⟩
  · apply hcone.keeps
    simp [partialMemo, Std.HashMap.ofList_cons, Std.HashMap.insertMany_cons]
  · simp [hcone.mem_order, partialMemo]
  · apply (hcone.mem_order 5).mpr
    refine ⟨by simp [Xag.kindAt?, nodes_sharedOperand, Xag.Node.kind?], ?_, by simp [partialMemo]⟩
    exact .single ⟨_, by rw [nodes_sharedOperand]; rfl, ⟨5, false⟩, by simp [Xag.Node.fanins], rfl⟩
  · apply (hcone.mem_order 6).mpr
    exact ⟨by simp [Xag.kindAt?, nodes_sharedOperand, Xag.Node.kind?], .refl, by simp [partialMemo]⟩

end Copy
end LogicResynthesis
