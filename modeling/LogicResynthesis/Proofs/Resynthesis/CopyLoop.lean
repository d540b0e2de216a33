import LogicResynthesis.Proofs.Dag.Recursion
import LogicResynthesis.Proofs.Resynthesis.Answering

/-!
# Copying cones with one stack

A cone can be copied with a stack of nodes alone. A node on top that has a copy is
taken off, a node whose fanins have copies is copied and taken off, and on top of
any other node go those of its fanins that have no copy. The same node may stand
on the stack several times.

On a well-formed library the rounds of this loop copy what the depth-first search
visits, in its order. A copied node accounts for at most three rounds, the root
for one. Then the stack is empty, and the copy is that of `addCone`.
-/

namespace LogicResynthesis
namespace Copy

/-- The nodes on the stack, the top first, and the copy so far. -/
structure Loop (σ : Type) where
  stack : List Nat
  copy : Copy σ

namespace Loop

variable {σ : Type} [Network σ]

/-- What is done about the top of the stack. -/
def round (library : Xag) : Loop σ → Except Fault (Loop σ)
  | ⟨[], c⟩ => .ok ⟨[], c⟩
  | ⟨n :: rest, c⟩ =>
    if c.memo.contains n then .ok ⟨rest, c⟩
    else do
      match (← pendingFanins library n).filter (!c.memo.contains ·) with
      | [] => return ⟨rest, ← addNode library c n⟩
      | pending => return ⟨pending ++ n :: rest, c⟩

def rounds (library : Xag) : Nat → Loop σ → Except Fault (Loop σ)
  | 0, l => .ok l
  | k + 1, l => do rounds library k (← round library l)

variable {library : Xag} {c : Copy σ} {n : Nat} {ns rest order later result : List Nat}

theorem rounds_done (k : Nat) : rounds library k ⟨[], c⟩ = .ok ⟨[], c⟩ := by
  induction k with
  | zero => rfl
  | succ k ih => exact ih

theorem rounds_skip (hn : c.memo.contains n = true) (k : Nat) :
    rounds library (k + 1) ⟨n :: rest, c⟩ = rounds library k ⟨rest, c⟩ := by
  simp [rounds, round, hn, bind, Except.bind]

theorem rounds_expand {fanins : List Nat} (hn : c.memo.contains n = false)
    (hfanins : pendingFanins library n = .ok fanins) :
    ∃ steps ≤ 1, ∀ rest k, rounds library (steps + k) ⟨n :: rest, c⟩ =
      rounds library k ⟨fanins.filter (!c.memo.contains ·) ++ n :: rest, c⟩ := by
  cases hpending : fanins.filter (!c.memo.contains ·) with
  | nil => exact ⟨0, by simp⟩
  | cons m ms =>
    refine ⟨1, le_rfl, fun rest k => ?_⟩
    rw [Nat.add_comm]
    simp [rounds, round, hn, hfanins, hpending, bind, Except.bind, pure, Except.pure]

theorem rounds_addNode {fanins : List Nat} (hn : c.memo.contains n = false)
    (hfanins : pendingFanins library n = .ok fanins)
    (hcopied : ∀ m ∈ fanins, c.memo.contains m = true) (k : Nat) :
    rounds library (k + 1) ⟨n :: rest, c⟩ =
      addNode library c n >>= fun c' => rounds library k ⟨rest, c'⟩ := by
  have hpending : fanins.filter (!c.memo.contains ·) = [] := by
    simpa [List.filter_eq_nil_iff] using hcopied
  simp only [rounds, round, hn, hfanins, hpending, bind, Except.bind]
  cases addNode library c n <;> rfl

end Loop

variable {σ : Type} {library : Xag} {c c' : Copy σ} {n : Nat} {order : List Nat}

theorem Adds.ready {before : List Nat} (h : c.Adds order c')
    (hbelow : Dag.DepthFirst (faninsOf library) (c.memo.contains ·) (faninsOf library n) before
      order) (hn : c.memo.contains n = false) (hnew : n ∉ order) :
    c'.memo.contains n = false ∧ ∀ m ∈ faninsOf library n, c'.memo.contains m = true := by
  constructor
  · rw [← Bool.not_eq_true, h n]
    simp [hn, hnew]
  · intro m hm
    exact (h m).mpr (hbelow.finished m hm).symm

variable [Network σ]

theorem adds_of_addNode (h : addNode library c n = .ok c') : c.Adds [n] c' := by
  obtain ⟨_, _, _, _, _, s, _, -, -, -, -, rfl⟩ := addNode_eq_ok h
  exact fun k => contains_insert_iff

theorem adds_of_foldlM (h : order.foldlM (addNode library) c = .ok c') : c.Adds order c' := by
  induction order generalizing c with
  | nil =>
    obtain rfl := Except.ok.inj h
    intro k
    simp
  | cons n order ih =>
    rw [List.foldlM_cons] at h
    obtain ⟨c₁, hadd, hrun⟩ := bind_eq_ok.mp h
    intro k
    rw [ih hrun k, adds_of_addNode hadd k]
    simp only [List.mem_cons, List.not_mem_nil, or_false]
    tauto

namespace Loop

variable {σ : Type} [Network σ] {library : Xag} {c₀ c : Copy σ} {n : Nat}
  {ns order later result : List Nat}

/-- The rounds over the nodes `ns`, whatever lies below them, copy the nodes `later`. -/
def Copies (library : Xag) (steps : Nat) (ns : List Nat) (c : Copy σ) (later : List Nat) : Prop :=
  ∀ rest k, rounds library (steps + k) ⟨ns ++ rest, c⟩ =
    later.foldlM (addNode library) c >>= fun c' => rounds library k ⟨rest, c'⟩

theorem copies_nil (c : Copy σ) : Copies library 0 [] c [] := by
  intro rest k
  rw [Nat.zero_add]
  rfl

theorem copies_skip (hn : c.memo.contains n = true) : Copies library 1 [n] c [] := by
  intro rest k
  rw [Nat.add_comm, List.singleton_append, rounds_skip hn]
  rfl

theorem copies_addNode {fanins : List Nat} (hn : c.memo.contains n = false)
    (hfanins : pendingFanins library n = .ok fanins)
    (hcopied : ∀ m ∈ fanins, c.memo.contains m = true) : Copies library 1 [n] c [n] := by
  intro rest k
  rw [Nat.add_comm, List.singleton_append, rounds_addNode hn hfanins hcopied, List.foldlM_cons]
  cases addNode library c n <;> rfl

theorem copies_expand {fanins : List Nat} {steps : Nat} (hn : c.memo.contains n = false)
    (hfanins : pendingFanins library n = .ok fanins)
    (h : Copies library steps (fanins.filter (!c.memo.contains ·) ++ [n]) c later) :
    ∃ steps' ≤ steps + 1, Copies library steps' [n] c later := by
  obtain ⟨first, hfirst, hexpand⟩ := rounds_expand hn hfanins
  refine ⟨first + steps, by omega, fun rest k => ?_⟩
  have hrest := h rest k
  rw [List.append_assoc] at hrest
  rw [Nat.add_assoc, List.singleton_append, hexpand, ← hrest, List.singleton_append]

theorem Copies.append {ns' order : List Nat} {a bound : Nat} (h : Copies library a ns c order)
    (h' : ∀ c', order.foldlM (addNode library) c = .ok c' →
      ∃ b ≤ bound, Copies library b ns' c' later) :
    ∃ steps ≤ a + bound, Copies library steps (ns ++ ns') c (order ++ later) := by
  cases hrun : order.foldlM (addNode library) c with
  | error f =>
    refine ⟨a, by omega, fun rest k => ?_⟩
    rw [List.append_assoc, h, List.foldlM_append, hrun]
    rfl
  | ok c' =>
    obtain ⟨b, hb, hlater⟩ := h' c' hrun
    refine ⟨a + b, by omega, fun rest k => ?_⟩
    rw [List.append_assoc, Nat.add_assoc, h, List.foldlM_append, hrun]
    exact hlater rest k

theorem copies_visit {fanins : List Nat} {steps : Nat} (hn : c.memo.contains n = false)
    (hfanins : pendingFanins library n = .ok fanins)
    (hbelow : Copies library steps (fanins.filter (!c.memo.contains ·)) c order)
    (hready : ∀ c', order.foldlM (addNode library) c = .ok c' →
      c'.memo.contains n = false ∧ ∀ m ∈ fanins, c'.memo.contains m = true) :
    ∃ steps' ≤ steps + 2, Copies library steps' [n] c (order ++ [n]) := by
  obtain ⟨a, ha, hnode⟩ := hbelow.append fun c' hc' =>
    ⟨1, le_rfl, copies_addNode (hready c' hc').1 hfanins (hready c' hc').2⟩
  obtain ⟨b, hb, hcopies⟩ := copies_expand hn hfanins hnode
  exact ⟨b, by omega, hcopies⟩

/-- The rounds over some nodes copy what the search visits from them. Finished nodes need not stand
on the stack. -/
theorem copies_search (hlibrary : library.WellFormed)
    (h : Dag.DepthFirst (faninsOf library) (c₀.memo.contains ·) ns order result)
    (hns : ∀ n ∈ ns, n < library.size) (hnodup : result.Nodup) (hlater : result = order ++ later)
    (hadds : c₀.Adds order c) {p : Nat → Bool}
    (hp : ∀ n ∈ ns, p n = false → c.memo.contains n = true) :
    ∃ steps ≤ (ns.filter p).length + 3 * later.length,
      Copies library steps (ns.filter p) c later := by
  have G := ranked_pendingFanins hlibrary
  induction h generalizing c later p with
  | nil order =>
    obtain rfl : later = [] := by simpa using hlater
    exact ⟨0, by simp, copies_nil c⟩
  | @skip n ns order result hfin _ ih =>
    rw [List.forall_mem_cons] at hns hp
    obtain ⟨steps, hsteps, hcopies⟩ := ih hns.2 hnodup hlater hadds hp.2
    have hn : c.memo.contains n = true := (hadds n).mpr hfin.symm
    cases hk : p n with
    | false =>
      rw [List.filter_cons_of_neg (by simp [hk])]
      exact ⟨steps, hsteps, hcopies⟩
    | true =>
      obtain ⟨steps', hsteps', hcopies'⟩ := (copies_skip hn).append fun c' hc' => by
        obtain rfl := Except.ok.inj hc'
        exact ⟨steps, hsteps, hcopies⟩
      rw [List.filter_cons_of_pos hk]
      refine ⟨steps', ?_, hcopies'⟩
      rw [List.length_cons]
      omega
  | @visit n ns order before result hnone hnew hbelow hrest ihbelow ihrest =>
    obtain ⟨first, rfl⟩ := hbelow.exists_append
    obtain ⟨last, rfl⟩ := hrest.exists_append
    obtain rfl : later = (first ++ [n]) ++ last := by simpa using hlater.symm
    rw [List.forall_mem_cons] at hns hp
    have hn : c.memo.contains n = false := by
      rw [← Bool.not_eq_true, hadds n]
      simp [hnone, hnew]
    have hk : p n = true := by
      by_contra hk
      simp [hn, hk] at hp
    have hfresh : n ∉ order ++ first := by
      have hsplit := hnodup
      rw [List.append_assoc] at hsplit
      exact fun hmem => List.disjoint_of_nodup_append hsplit hmem (by simp)
    -- the fanins on top of the node are copied as the search visits them
    obtain ⟨a, ha, habove⟩ := ihbelow (p := (!c.memo.contains ·)) (G.below_lt n hns.1)
      (hnodup.sublist (by simp)) rfl hadds (by simp)
    obtain ⟨b, hb, hnode⟩ := copies_visit hn (G.fanins_eq n hns.1) habove fun c' hc' =>
      (hadds.append (adds_of_foldlM hc')).ready hbelow hnone hfresh
    obtain ⟨steps, hsteps, hcopies⟩ := hnode.append fun c' hc' => by
      have hadds' := adds_of_foldlM hc'
      refine ihrest hns.2 hnodup rfl (p := p) ?_ fun m hm hpm => ?_
      · rw [List.append_assoc]
        exact hadds.append hadds'
      · exact (hadds' m).mpr (.inr (hp.2 m hm hpm))
    have hlength : ((faninsOf library n).filter (!c.memo.contains ·)).length ≤ 2 :=
      (List.length_filter_le _ _).trans (G.length_le n hns.1)
    rw [List.filter_cons_of_pos hk]
    refine ⟨steps, ?_, hcopies⟩
    simp only [List.length_append, List.length_cons, List.length_nil]
    omega

/-- However many rounds beyond the bound are made, and whatever the target answers, the loop ends
with the outcome of `addCone`. -/
theorem rounds_eq_addCone (hlibrary : library.WellFormed) {root : Nat} (hroot : root < library.size)
    (horder : Dag.postOrder library.size (pendingFanins library) (c.memo.contains ·) [root] =
      .ok order) {k : Nat} (hk : 1 + 3 * order.length ≤ k) :
    rounds library k ⟨[root], c⟩ = (addCone library c root).map fun r => ⟨[], r.2⟩ := by
  have hroots : ∀ n ∈ [root], n < library.size := by simpa using hroot
  have G := ranked_pendingFanins hlibrary
  obtain ⟨order', hsearch, hrun⟩ := G.run_depthFirst (c.memo.contains ·) hroots
  obtain ⟨order'', horder'', htopological, -⟩ := G.postOrder_topological (c.memo.contains ·) hroots
  obtain rfl := Except.ok.inj (horder.symm.trans horder'')
  obtain rfl := Except.ok.inj (horder.symm.trans (hrun _ le_rfl))
  have hstart : c.Adds [] c := fun k => by simp
  obtain ⟨steps, hsteps, hcopies⟩ := copies_search (p := fun _ => true) hlibrary hsearch hroots
    htopological.nodup rfl hstart (by simp)
  obtain ⟨spare, rfl⟩ : ∃ spare, k = steps + spare := ⟨k - steps, by simp at hsteps; omega⟩
  have hrounds := hcopies [] spare
  simp only [List.filter_true, List.append_nil] at hrounds
  rw [hrounds]
  cases hrun : order.foldlM (addNode library) c with
  | error f => simp [addCone, horder, hrun, bind, Except.bind, Except.map]
  | ok c' =>
    have hmem : c'.memo.contains root = true := by
      rw [adds_of_foldlM hrun root]
      exact (hsearch.finished root List.mem_cons_self).symm
    obtain ⟨s, hs⟩ := exists_of_contains hmem
    rw [addCone_eq_ok.mpr ⟨order, horder, hrun, hs⟩]
    exact rounds_done spare

end Loop
end Copy
end LogicResynthesis
