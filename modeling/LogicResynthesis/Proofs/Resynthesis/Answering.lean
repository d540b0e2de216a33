import LogicResynthesis.Proofs.Resynthesis.Query
import LogicResynthesis.Proofs.Resynthesis.Replay

/-!
# Targets that answer every request

A fault of a query comes from its target or from what is missing in the library
or the memo. With the library of an engine nothing is missing. So a target that
answers all requests, as an XAG does, answers all queries, over any leaves.
-/

namespace LogicResynthesis

/-- Every request is answered, whatever the operands are. -/
def Answering (σ : Type) [Network σ] : Prop :=
  ∀ (kind : GateKind) (g : σ) (x y : Signal), ∃ s g', kind.request? g x y = .ok (s, g')

namespace Xag

theorem answering : Answering Xag := by
  intro kind g x y
  cases kind
  · exact ⟨_, _, rfl⟩
  · exact ⟨_, _, rfl⟩

theorem Node.IsGate.exists_kind {node : Node} (h : node.IsGate) :
    ∃ (kind : GateKind) (x y : Signal), node = kind.node x y := by
  cases node with
  | constant => exact h.elim
  | input i => exact h.elim
  | and x y => exact ⟨.and, x, y, rfl⟩
  | xor x y => exact ⟨.xor, x, y, rfl⟩

end Xag

variable {σ : Type}

namespace Copy

variable {library : Xag} {c c' : Copy σ} {order : List Nat}

/-- What is no gate has been copied. -/
def Started (library : Xag) (c : Copy σ) : Prop :=
  ∀ (n : Nat) (node : Xag.Node), library.nodes[n]? = some node → ¬node.IsGate →
    c.memo.contains n = true

/-- The nodes in the list have been copied too, and no others. -/
def Adds (c : Copy σ) (order : List Nat) (c' : Copy σ) : Prop :=
  ∀ k, c'.memo.contains k = true ↔ k ∈ order ∨ c.memo.contains k = true

theorem Adds.started (h : c.Adds order c') (hc : c.Started library) : c'.Started library :=
  fun n node hnode hgate => (h n).mpr (.inr (hc n node hnode hgate))

theorem Adds.append {c'' : Copy σ} {later : List Nat} (h : c.Adds order c')
    (h' : c'.Adds later c'') : c.Adds (order ++ later) c'' := by
  intro k
  rw [h' k, h k, List.mem_append]
  tauto

variable [Network σ]

theorem addNode_answered (hσ : Answering σ) {n : Nat} {node : Xag.Node}
    (hnode : library.nodes[n]? = some node) (hgate : node.IsGate)
    (hfanins : ∀ s ∈ node.fanins, c.memo.contains s.node = true) :
    ∃ s target, addNode library c n = .ok ⟨c.memo.insert n s, target⟩ := by
  obtain ⟨kind, x, y, rfl⟩ := hgate.exists_kind
  have hresolve : ∀ z, z = x ∨ z = y → ∃ s, c.memo.resolve? z = .ok s := by
    intro z hz
    obtain ⟨t, ht⟩ := exists_of_contains (hfanins z (kind.mem_fanins.mpr hz))
    exact ⟨_, Memo.resolve?_eq_ok.mpr ⟨t, ht, rfl⟩⟩
  obtain ⟨s, hs⟩ := hresolve x (.inl rfl)
  obtain ⟨t, ht⟩ := hresolve y (.inr rfl)
  obtain ⟨r, target, hr⟩ := hσ kind c.target s t
  exact ⟨r, target, addNode_eq hnode hs ht hr⟩

theorem Adds.concat (hσ : Answering σ) (h : c.Adds order c') (hc : c.Started library) {n : Nat}
    (hn : n < library.size) (hdone : c.memo.contains n = false) (hnew : n ∉ order)
    (hbelow : ∀ m ∈ faninsOf library n, c.memo.contains m = true ∨ m ∈ order) :
    ∃ c'', addNode library c' n = .ok c'' ∧ c.Adds (order ++ [n]) c'' := by
  obtain ⟨node, hnode, hgate, hfanins⟩ :=
    exists_gate_of_pending h (h.started hc) hn hdone hnew hbelow
  obtain ⟨s, target, hadd⟩ := addNode_answered hσ hnode hgate hfanins
  exact ⟨_, hadd, h.append fun _ => contains_insert_iff⟩

theorem addCone_answered (hσ : Answering σ) (hlibrary : library.WellFormed)
    (hc : c.Started library) {root : Nat} (hroot : root < library.size) :
    ∃ s c', addCone library c root = .ok (s, c') ∧ c'.Started library := by
  have hroots : ∀ n ∈ [root], n < library.size := by simpa using hroot
  obtain ⟨order, horder, htopological, hfinished⟩ :=
    (ranked_pendingFanins hlibrary).postOrder_topological (c.memo.contains ·) hroots
  have hnil : c.Adds [] c := fun k => by simp
  obtain ⟨c', hrun, hadds⟩ := htopological.foldlM_ok hnil
    fun _ _ _ hadds hn hdone hnew hbelow => hadds.concat hσ hc hn hdone hnew hbelow
  obtain ⟨s, hs⟩ := exists_of_contains
    ((hadds root).mpr (hfinished root List.mem_cons_self).symm)
  exact ⟨s, c', addCone_eq_ok.mpr ⟨order, horder, hrun, hs⟩, hadds.started hc⟩

end Copy

namespace Engine

variable [Network σ] {e : Engine}

theorem WellFormed.offerAll_answered (h : e.WellFormed) (hσ : Answering σ) (t : Npn.Transform)
    (accept : List Signal → Bool) {candidates : List Signal}
    (hcandidates : ∀ s ∈ candidates, e.library.Has s) {c : Copy σ} (hc : c.Started e.library)
    (offers : List Signal) : ∃ outcome, offerAll e t accept candidates offers c = .ok outcome := by
  induction candidates generalizing offers c with
  | nil => exact ⟨_, rfl⟩
  | cons candidate rest ih =>
    obtain ⟨s, c', hcone, hc'⟩ :=
      Copy.addCone_answered hσ h.library hc (hcandidates candidate List.mem_cons_self)
    unfold offerAll
    rw [hcone]
    dsimp only
    split
    · exact ih (fun s' hs' => hcandidates s' (List.mem_cons_of_mem _ hs')) hc' _
    · exact ⟨_, rfl⟩

theorem WellFormed.query_answered (h : e.WellFormed) (hσ : Answering σ) (function : Table)
    (leaves : List Signal) (accept : List Signal → Bool) (target : σ) :
    ∃ outcome, e.query function leaves accept target = .ok outcome := by
  unfold query
  cases function.toTable4? with
  | none => exact ⟨_, rfl⟩
  | some f =>
    dsimp only
    cases hget : e.index.get? (Npn.ClassTable.standard.lookup f).representative with
    | none => exact ⟨_, rfl⟩
    | some candidates =>
      obtain ⟨memo, hseed, hseeded⟩ := h.seed_ok (Npn.ClassTable.standard.lookup f).transform leaves
      have hcandidates : ∀ s ∈ candidates, e.library.Has s := fun s hs =>
        (ClassIndex.computes_of_get? h.library h.index hget hs).1
      dsimp only
      rw [hseed]
      exact h.offerAll_answered hσ _ accept hcandidates (c := ⟨memo, target⟩)
        (h.contains_of_seeded hseeded) []

end Engine
end LogicResynthesis
