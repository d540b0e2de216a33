import Mathlib.Data.List.Nodup
import Mathlib.Data.List.Perm.Subperm
import LogicResynthesis.Dag.PostOrder

/-!
# The stack walk and recursive depth-first search

On a graph whose fanins descend in some rank the walk with a stack emits what
the recursive search emits, in the same order, and its fuel is enough: a node
that is emitted accounts for at most three steps, a root for one. The result is
topological, that is, every node comes after its fanins.
-/

namespace LogicResynthesis
namespace Dag

/-- The fanins of the nodes below `size` are `below`: at most two, in range, of lower rank. -/
structure Ranked (size : Nat) (fanins : Nat → Except Fault (List Nat)) (below : Nat → List Nat)
    (rank : Nat → Nat) : Prop where
  fanins_eq : ∀ n < size, fanins n = .ok (below n)
  length_le : ∀ n < size, (below n).length ≤ 2
  below_lt : ∀ n < size, ∀ m ∈ below n, m < size
  rank_lt : ∀ n < size, ∀ m ∈ below n, rank m < rank n

section Search

variable (below : Nat → List Nat) (done : Nat → Bool)

/-- Recursive search to a given depth: emits what is new below `n`, then `n` itself. -/
def visit : Nat → List Nat → Nat → List Nat
  | 0, order, _ => order
  | depth + 1, order, n =>
    if done n || order.contains n then order
    else (below n).foldl (visit depth) order ++ [n]

variable {below done}

theorem visit_of_finished {depth n : Nat} {order : List Nat}
    (h : (done n || order.contains n) = true) : visit below done depth order n = order := by
  cases depth with
  | zero => rfl
  | succ depth => rw [visit, if_pos h]

theorem visit_of_fresh {depth n : Nat} {order : List Nat}
    (h : ¬(done n || order.contains n) = true) :
    visit below done (depth + 1) order n =
      (below n).foldl (visit below done depth) order ++ [n] := by
  rw [visit, if_neg h]

theorem foldl_keeps {P : List Nat → Prop} {f : List Nat → Nat → List Nat} {ns : List Nat}
    (hf : ∀ order, ∀ n ∈ ns, P order → P (f order n)) {order : List Nat} (h : P order) :
    P (ns.foldl f order) := by
  induction ns generalizing order with
  | nil => exact h
  | cons n ns ih =>
    exact ih (fun order m hm => hf order m (List.mem_cons_of_mem _ hm))
      (hf order n List.mem_cons_self h)

theorem mem_foldl_or {m : Nat} {Q : Nat → Prop} {f : List Nat → Nat → List Nat} {ns : List Nat}
    (hf : ∀ order, ∀ n ∈ ns, m ∈ f order n → m ∈ order ∨ Q n) {order : List Nat}
    (hm : m ∈ ns.foldl f order) : m ∈ order ∨ ∃ n ∈ ns, Q n := by
  induction ns generalizing order with
  | nil => exact Or.inl hm
  | cons n ns ih =>
    rcases ih (fun order c hc => hf order c (List.mem_cons_of_mem _ hc)) hm with hm | ⟨c, hc, hQ⟩
    · exact (hf order n List.mem_cons_self hm).imp_right fun hQ => ⟨n, List.mem_cons_self, hQ⟩
    · exact Or.inr ⟨c, List.mem_cons_of_mem _ hc, hQ⟩

theorem prefix_visit (depth : Nat) (order : List Nat) (n : Nat) :
    order <+: visit below done depth order n := by
  induction depth generalizing order n with
  | zero => exact List.prefix_refl _
  | succ depth ih =>
    by_cases h : (done n || order.contains n) = true
    · simp only [visit_of_finished h, List.prefix_refl]
    · rw [visit_of_fresh h]
      have hbelow : order <+: (below n).foldl (visit below done depth) order :=
        foldl_keeps (P := (order <+: ·)) (fun l m _ hl => hl.trans (ih l m)) (List.prefix_refl _)
      exact hbelow.trans (List.prefix_append _ _)

/-- Leaving out beforehand what is finished does not change the search. -/
theorem foldl_visit_filter (depth : Nat) (order : List Nat) (ns : List Nat) {later : List Nat}
    (hsub : order ⊆ later) :
    (ns.filter fun m => !(done m || order.contains m)).foldl (visit below done depth) later =
      ns.foldl (visit below done depth) later := by
  induction ns generalizing later with
  | nil => rfl
  | cons m ns ih =>
    by_cases hm : (done m || order.contains m) = true
    · have hlater : (done m || later.contains m) = true := by
        simp only [Bool.or_eq_true, List.contains_iff_mem] at hm ⊢
        exact hm.imp_right fun h => hsub h
      rw [List.filter_cons_of_neg (by rw [hm]; decide), List.foldl_cons, visit_of_finished hlater]
      exact ih hsub
    · rw [List.filter_cons_of_pos (by rwa [Bool.not_eq_true', ← Bool.not_eq_true]),
        List.foldl_cons, List.foldl_cons]
      exact ih fun k hk => (prefix_visit depth later m).subset (hsub hk)

end Search

variable {size : Nat} {fanins : Nat → Except Fault (List Nat)} {below : Nat → List Nat}
  {rank : Nat → Nat} {done : Nat → Bool}

theorem Ranked.mem_visit (G : Ranked size fanins below rank) {depth n m : Nat} {order : List Nat}
    (hn : n < size) (hm : m ∈ visit below done depth order n) :
    m ∈ order ∨ m < size ∧ rank m ≤ rank n := by
  induction depth generalizing order n with
  | zero => exact Or.inl hm
  | succ depth ih =>
    by_cases h : (done n || order.contains n) = true
    · rw [visit_of_finished h] at hm
      exact Or.inl hm
    · rw [visit_of_fresh h, List.mem_append, List.mem_singleton] at hm
      rcases hm with hm | rfl
      · rcases mem_foldl_or (f := visit below done depth)
            (fun l c hc => ih (G.below_lt n hn c hc)) hm with hm | ⟨c, hc, hms, hmr⟩
        · exact Or.inl hm
        · exact Or.inr ⟨hms, Nat.le_trans hmr (Nat.le_of_lt (G.rank_lt n hn c hc))⟩
      · exact Or.inr ⟨hn, Nat.le_refl _⟩

theorem Ranked.notMem_foldl_visit (G : Ranked size fanins below rank) {depth n : Nat}
    {order : List Nat} (hn : n < size) (hnew : n ∉ order) :
    n ∉ (below n).foldl (visit below done depth) order := by
  intro hmem
  rcases mem_foldl_or (f := visit below done depth)
    (fun l c hc => G.mem_visit (G.below_lt n hn c hc)) hmem with hmem | h
  · exact hnew hmem
  · obtain ⟨c, hc, _, hrank⟩ := h
    have hlt := G.rank_lt n hn c hc
    omega

/-- Each node of the list is new, in range, and comes after its fanins. -/
inductive Topological (size : Nat) (below : Nat → List Nat) (done : Nat → Bool) : List Nat → Prop
  | nil : Topological size below done []
  | concat {order : List Nat} {n : Nat} (h : Topological size below done order) (hn : n < size)
      (hdone : done n = false) (hnew : n ∉ order)
      (hbelow : ∀ m ∈ below n, done m = true ∨ m ∈ order) :
      Topological size below done (order ++ [n])

namespace Topological

variable {order : List Nat}

theorem nodup (h : Topological size below done order) : order.Nodup := by
  induction h with
  | nil => exact List.nodup_nil
  | concat _ _ _ hnew _ ih =>
    rw [← List.concat_eq_append]
    exact ih.concat hnew

theorem lt_size (h : Topological size below done order) : ∀ n ∈ order, n < size := by
  induction h with
  | nil => simp
  | concat _ hn _ _ _ ih =>
    intro m hm
    rcases List.mem_append.mp hm with hm | hm
    · exact ih m hm
    · rwa [List.mem_singleton.mp hm]

theorem length_le (h : Topological size below done order) : order.length ≤ size := by
  have hsub : order ⊆ List.range size := fun n hn => List.mem_range.mpr (h.lt_size n hn)
  simpa using (List.Nodup.subperm h.nodup hsub).length_le

theorem foldlM_ok {σ ε : Type} {f : σ → Nat → Except ε σ} {P : List Nat → σ → Prop}
    (h : Topological size below done order) {s : σ} (start : P [] s)
    (step : ∀ order n s, P order s → n < size → done n = false → n ∉ order →
      (∀ m ∈ below n, done m = true ∨ m ∈ order) → ∃ s', f s n = .ok s' ∧ P (order ++ [n]) s') :
    ∃ s', order.foldlM f s = .ok s' ∧ P order s' := by
  induction h with
  | nil => exact ⟨s, rfl, start⟩
  | @concat order n _ hn hdone hnew hbelow ih =>
    obtain ⟨s₁, hrun, hs₁⟩ := ih
    obtain ⟨s₂, hstep, hs₂⟩ := step order n s₁ hs₁ hn hdone hnew hbelow
    refine ⟨s₂, ?_, hs₂⟩
    rw [List.foldlM_append, hrun]
    change List.foldlM f s₁ [n] = _
    rw [List.foldlM_cons, hstep]
    rfl

end Topological

theorem topological_foldl {f : List Nat → Nat → List Nat} {ns : List Nat}
    (hf : ∀ order, ∀ n ∈ ns, Topological size below done order →
      Topological size below done (f order n) ∧ (done n = true ∨ n ∈ f order n))
    (hgrow : ∀ order n, order ⊆ f order n) {order : List Nat}
    (h : Topological size below done order) :
    Topological size below done (ns.foldl f order) ∧
      ∀ n ∈ ns, done n = true ∨ n ∈ ns.foldl f order := by
  induction ns generalizing order with
  | nil => exact ⟨h, by simp⟩
  | cons n ns ih =>
    obtain ⟨hn, hfin⟩ := hf order n List.mem_cons_self h
    obtain ⟨hns, hrest⟩ := ih (fun order c hc => hf order c (List.mem_cons_of_mem _ hc)) hn
    refine ⟨hns, fun c hc => ?_⟩
    rcases List.mem_cons.mp hc with rfl | hc
    · refine hfin.imp_right fun hmem => ?_
      rw [List.foldl_cons]
      exact foldl_keeps (P := fun l => c ∈ l) (fun l m _ hl => hgrow l m hl) hmem
    · exact hrest c hc

theorem Ranked.topological_visit (G : Ranked size fanins below rank) {depth n : Nat}
    {order : List Nat} (hn : n < size) (hdepth : rank n < depth)
    (h : Topological size below done order) :
    Topological size below done (visit below done depth order n) ∧
      (done n = true ∨ n ∈ visit below done depth order n) := by
  induction depth generalizing order n with
  | zero => omega
  | succ depth ih =>
    by_cases hfin : (done n || order.contains n) = true
    · rw [visit_of_finished hfin]
      exact ⟨h, by simpa using hfin⟩
    · rw [visit_of_fresh hfin]
      obtain ⟨hdone, hnew⟩ : done n = false ∧ n ∉ order := by simpa using hfin
      obtain ⟨hbefore, hbelow⟩ :
          Topological size below done ((below n).foldl (visit below done depth) order) ∧
            ∀ m ∈ below n, done m = true ∨ m ∈ (below n).foldl (visit below done depth) order :=
        topological_foldl
          (fun l m hm hl => ih (G.below_lt n hn m hm)
            (Nat.lt_of_lt_of_le (G.rank_lt n hn m hm) (Nat.le_of_lt_succ hdepth)) hl)
          (fun l m => (prefix_visit depth l m).subset) h
      exact ⟨hbefore.concat hn hdone (G.notMem_foldl_visit hn hnew) hbelow, Or.inr (by simp)⟩

theorem Ranked.topological_search (G : Ranked size fanins below rank) {depth : Nat}
    {roots : List Nat} (hroots : ∀ n ∈ roots, n < size) (hdepth : ∀ n < size, rank n < depth) :
    Topological size below done (roots.foldl (visit below done depth) []) ∧
      ∀ n ∈ roots, done n = true ∨ n ∈ roots.foldl (visit below done depth) [] :=
  topological_foldl
    (fun _ n hn hl => G.topological_visit (hroots n hn) (hdepth n (hroots n hn)) hl)
    (fun l n => (prefix_visit depth l n).subset) Topological.nil

section Walk

def Emitted (order : List Nat) (w : Walk) : Prop :=
  w.reversed = order.reverse ∧ ∀ m, w.emitted.contains m = order.contains m

/-- So many steps lead from one state of the walk to another. -/
def Reaches (fanins : Nat → Except Fault (List Nat)) (done : Nat → Bool) (steps : Nat)
    (w w' : Walk) : Prop :=
  ∀ fuel, Walk.run fanins done (steps + fuel) w = Walk.run fanins done fuel w'

theorem Reaches.refl (w : Walk) : Reaches fanins done 0 w w := fun fuel => by
  rw [Nat.zero_add]

theorem Reaches.trans {a b : Nat} {w₁ w₂ w₃ : Walk} (h : Reaches fanins done a w₁ w₂)
    (h' : Reaches fanins done b w₂ w₃) : Reaches fanins done (a + b) w₁ w₃ := by
  intro fuel
  rw [Nat.add_assoc, h, h']

variable {order : List Nat} {w : Walk} {n : Nat} {rest : List Frame}

theorem Emitted.finished_eq (h : Emitted order w) (n : Nat) :
    (done n || w.emitted.contains n) = (done n || order.contains n) := by
  rw [h.2 n]

theorem reaches_skip {expanded : Bool} (hw : w.stack = ⟨n, expanded⟩ :: rest)
    (hfin : (done n || w.emitted.contains n) = true) :
    Reaches fanins done 1 w { w with stack := rest } := by
  intro fuel
  rw [Nat.add_comm, Walk.run, hw]
  exact if_pos hfin

theorem reaches_emit (hw : w.stack = ⟨n, true⟩ :: rest)
    (hfin : ¬(done n || w.emitted.contains n) = true) :
    Reaches fanins done 1 w (w.emit n rest) := by
  intro fuel
  rw [Nat.add_comm, Walk.run, hw]
  exact (if_neg hfin).trans (if_pos rfl)

theorem reaches_expand {ns : List Nat} (hw : w.stack = ⟨n, false⟩ :: rest)
    (hfin : ¬(done n || w.emitted.contains n) = true) (hns : fanins n = .ok ns) :
    Reaches fanins done 1 w (w.expand done n ns rest) := by
  intro fuel
  rw [Nat.add_comm, Walk.run, hw]
  dsimp only
  rw [if_neg hfin, if_neg Bool.false_ne_true, hns]

theorem emitted_emit (h : Emitted order w) (n : Nat) (rest : List Frame) :
    Emitted (order ++ [n]) (w.emit n rest) := by
  obtain ⟨hreversed, hcontains⟩ := h
  constructor
  · simp [Walk.emit, hreversed]
  · intro m
    rw [Walk.emit, Std.HashSet.contains_insert, hcontains, List.contains_append, Bool.or_comm,
      Bool.beq_comm, List.contains_cons, List.contains_nil, Bool.or_false]

/-- Where a search of some nodes takes the walk that has them on its stack, and how soon: each
emitted node pays for three steps, each node to visit for one. -/
def Searches (fanins : Nat → Except Fault (List Nat)) (done : Nat → Bool)
    (search : List Nat → List Nat) (ns : List Nat) : Prop :=
  ∀ order w rest, w.stack = ns.map (⟨·, false⟩) ++ rest → Emitted order w →
    ∃ steps w', Reaches fanins done steps w w' ∧ w'.stack = rest ∧ Emitted (search order) w' ∧
      steps + 3 * order.length ≤ ns.length + 3 * (search order).length

theorem searches_foldl {f : List Nat → Nat → List Nat} {ns : List Nat}
    (hf : ∀ n ∈ ns, Searches fanins done (f · n) [n]) :
    Searches fanins done (ns.foldl f ·) ns := by
  induction ns with
  | nil =>
    intro order w rest hw hemitted
    exact ⟨0, w, Reaches.refl w, hw, hemitted, by simp⟩
  | cons n ns ih =>
    intro order w rest hw hemitted
    obtain ⟨a, w₁, hreach₁, hw₁, hemitted₁, hcost₁⟩ :=
      hf n List.mem_cons_self order w (ns.map (⟨·, false⟩) ++ rest) hw hemitted
    obtain ⟨b, w₂, hreach₂, hw₂, hemitted₂, hcost₂⟩ :=
      ih (fun m hm => hf m (List.mem_cons_of_mem _ hm)) (f order n) w₁ rest hw₁ hemitted₁
    refine ⟨a + b, w₂, hreach₁.trans hreach₂, hw₂, hemitted₂, ?_⟩
    simp only [List.length_cons, List.length_nil, List.foldl_cons] at hcost₁ hcost₂ ⊢
    omega

theorem Ranked.searches_visit (G : Ranked size fanins below rank) {depth n : Nat} (hn : n < size)
    (hdepth : rank n < depth) : Searches fanins done (visit below done depth · n) [n] := by
  induction depth generalizing n with
  | zero => omega
  | succ depth ih =>
    intro order w rest hw hemitted
    dsimp only
    by_cases hfin : (done n || order.contains n) = true
    · rw [visit_of_finished hfin]
      rw [← hemitted.finished_eq] at hfin
      exact ⟨1, _, reaches_skip hw hfin, rfl, hemitted, by simp⟩
    · rw [visit_of_fresh hfin]
      let pending := (below n).filter fun m => !(done m || w.emitted.contains m)
      have hsub : ∀ m ∈ pending, m ∈ below n := fun m hm => List.mem_of_mem_filter hm
      have hsearch : Searches fanins done (pending.foldl (visit below done depth) ·) pending :=
        searches_foldl fun m hm => ih (G.below_lt n hn m (hsub m hm))
          (Nat.lt_of_lt_of_le (G.rank_lt n hn m (hsub m hm)) (Nat.le_of_lt_succ hdepth))
      have hpending : pending.foldl (visit below done depth) order =
          (below n).foldl (visit below done depth) order := by
        simp only [pending, hemitted.finished_eq]
        exact foldl_visit_filter depth order (below n) fun _ h => h
      have hexpand : Reaches fanins done 1 w (w.expand done n (below n) rest) :=
        reaches_expand hw (by rwa [hemitted.finished_eq]) (G.fanins_eq n hn)
      obtain ⟨steps, w', hreach, hw', hemitted', hcost⟩ :=
        hsearch order (w.expand done n (below n) rest) (⟨n, true⟩ :: rest) rfl hemitted
      dsimp only at hemitted' hcost
      rw [hpending] at hemitted' hcost
      obtain ⟨hdone, hnew⟩ : done n = false ∧ n ∉ order := by simpa using hfin
      have hfresh : ¬(done n || w'.emitted.contains n) = true := by
        rw [hemitted'.finished_eq]
        simpa [hdone] using G.notMem_foldl_visit hn hnew
      refine ⟨1 + steps + 1, _, (hexpand.trans hreach).trans (reaches_emit hw' hfresh), rfl,
        emitted_emit hemitted' n rest, ?_⟩
      have hlength : pending.length ≤ 2 :=
        Nat.le_trans (List.length_filter_le _ _) (G.length_le n hn)
      simp only [List.length_append, List.length_cons, List.length_nil]
      omega

theorem Ranked.searches_foldl_visit (G : Ranked size fanins below rank) {depth : Nat}
    {roots : List Nat} (hroots : ∀ n ∈ roots, n < size) (hdepth : ∀ n < size, rank n < depth) :
    Searches fanins done (roots.foldl (visit below done depth) ·) roots :=
  searches_foldl fun n hn => G.searches_visit (hroots n hn) (hdepth n (hroots n hn))

end Walk

/-- The walk comes to an end with the recursive post-order, however many steps it could take. -/
theorem Ranked.run_eq (G : Ranked size fanins below rank) {depth fuel : Nat} {roots : List Nat}
    (hroots : ∀ n ∈ roots, n < size) (hdepth : ∀ n < size, rank n < depth)
    (hfuel : roots.length + 3 * size ≤ fuel) :
    Walk.run fanins done fuel (Walk.start roots) =
      .ok (roots.foldl (visit below done depth) []) := by
  have hstart : Emitted [] (Walk.start roots) := ⟨rfl, fun m => by simp [Walk.start]⟩
  have hsearch : Searches fanins done (roots.foldl (visit below done depth) ·) roots :=
    G.searches_foldl_visit hroots hdepth
  obtain ⟨steps, w, hreach, hw, ⟨hreversed, _⟩, hcost⟩ :=
    hsearch [] (Walk.start roots) [] (by simp [Walk.start]) hstart
  obtain ⟨htopological, _⟩ :
      Topological size below done (roots.foldl (visit below done depth) []) ∧ _ :=
    G.topological_search hroots hdepth
  have hlength := htopological.length_le
  obtain ⟨spare, rfl⟩ : ∃ spare, fuel = steps + spare := by
    simp only [List.length_nil] at hcost
    exact ⟨fuel - steps, by omega⟩
  rw [hreach]
  cases spare <;> simp [Walk.run, hw, hreversed]

theorem Ranked.postOrder_eq (G : Ranked size fanins below rank) {depth : Nat} {roots : List Nat}
    (hroots : ∀ n ∈ roots, n < size) (hdepth : ∀ n < size, rank n < depth) :
    postOrder size fanins done roots = .ok (roots.foldl (visit below done depth) []) :=
  G.run_eq hroots hdepth (Nat.le_refl _)

theorem exists_depth (rank : Nat → Nat) (size : Nat) : ∃ depth, ∀ n < size, rank n < depth := by
  induction size with
  | zero => exact ⟨0, by simp⟩
  | succ size ih =>
    obtain ⟨depth, hdepth⟩ := ih
    refine ⟨max depth (rank size + 1), fun n hn => ?_⟩
    rcases Nat.lt_succ_iff_lt_or_eq.mp hn with h | rfl
    · exact Nat.lt_of_lt_of_le (hdepth n h) (Nat.le_max_left _ _)
    · exact Nat.le_max_right _ _

/-- The post-order below some nodes lists them, unless they were done, and is topological. -/
theorem Ranked.postOrder_topological (G : Ranked size fanins below rank) (done : Nat → Bool)
    {roots : List Nat} (hroots : ∀ n ∈ roots, n < size) :
    ∃ order, postOrder size fanins done roots = .ok order ∧
      Topological size below done order ∧ ∀ n ∈ roots, done n = true ∨ n ∈ order := by
  obtain ⟨depth, hdepth⟩ := exists_depth rank size
  refine ⟨_, G.postOrder_eq hroots hdepth, ?_⟩
  exact G.topological_search hroots hdepth

end Dag
end LogicResynthesis
