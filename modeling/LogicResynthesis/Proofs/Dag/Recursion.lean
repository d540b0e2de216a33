import LogicResynthesis.Proofs.Dag.Reachability

/-!
# Recursive depth-first search

The search visits some nodes one after another. A node that is done or has been
emitted is left out; any other node is emitted as soon as its fanins have been
visited in the same way. On a graph whose fanins descend in some rank this comes
to an end, with one result, and the walk with a stack has the same.
-/

namespace LogicResynthesis
namespace Dag

/-- Visits of some nodes, in order, lead from one list of emitted nodes to another. -/
inductive DepthFirst (below : Nat → List Nat) (done : Nat → Bool) :
    List Nat → List Nat → List Nat → Prop
  | nil (order : List Nat) : DepthFirst below done [] order order
  | skip {n : Nat} {ns order result : List Nat} (h : done n = true ∨ n ∈ order)
      (rest : DepthFirst below done ns order result) : DepthFirst below done (n :: ns) order result
  | visit {n : Nat} {ns order before result : List Nat} (hdone : done n = false)
      (hnew : n ∉ order) (fanins : DepthFirst below done (below n) order before)
      (rest : DepthFirst below done ns (before ++ [n]) result) :
      DepthFirst below done (n :: ns) order result

variable {size : Nat} {fanins : Nat → Except Fault (List Nat)} {below : Nat → List Nat}
  {rank : Nat → Nat} {done : Nat → Bool} {n : Nat} {ns roots order order' result : List Nat}

namespace DepthFirst

theorem unique (h : DepthFirst below done ns order result)
    (h' : DepthFirst below done ns order order') : order' = result := by
  induction h generalizing order' with
  | nil order =>
    cases h' with
    | nil => rfl
  | skip hfin _ ih =>
    cases h' with
    | skip _ rest => exact ih rest
    | visit hdone hnew _ _ => simp [hdone, hnew] at hfin
  | visit hdone hnew _ _ ihbelow ihrest =>
    cases h' with
    | skip hfin _ => simp [hdone, hnew] at hfin
    | visit _ _ fanins rest =>
      rw [ihbelow fanins] at rest
      exact ihrest rest

theorem exists_append (h : DepthFirst below done ns order result) :
    ∃ later, result = order ++ later := by
  induction h with
  | nil order => exact ⟨[], by simp⟩
  | skip _ _ ih => exact ih
  | @visit n _ _ _ _ _ _ _ _ ihbelow ihrest =>
    obtain ⟨before, rfl⟩ := ihbelow
    obtain ⟨after, rfl⟩ := ihrest
    exact ⟨before ++ n :: after, by simp⟩

theorem finished (h : DepthFirst below done ns order result) :
    ∀ n ∈ ns, done n = true ∨ n ∈ result := by
  induction h with
  | nil => simp
  | skip hfin rest ih =>
    obtain ⟨later, rfl⟩ := rest.exists_append
    rw [List.forall_mem_cons]
    exact ⟨hfin.imp_right (List.mem_append_left later), ih⟩
  | visit _ _ _ rest _ ihrest =>
    obtain ⟨later, rfl⟩ := rest.exists_append
    rw [List.forall_mem_cons]
    exact ⟨.inr (by simp), ihrest⟩

theorem cons (h : DepthFirst below done [n] order order')
    (rest : DepthFirst below done ns order' result) :
    DepthFirst below done (n :: ns) order result := by
  cases h with
  | skip hfin hnil =>
    cases hnil with
    | nil => exact .skip hfin rest
  | visit hdone hnew fanins hnil =>
    cases hnil with
    | nil => exact .visit hdone hnew fanins rest

theorem congr {below' : Nat → List Nat} (h : DepthFirst below done ns order result)
    (hsame : ∀ n < size, below' n = below n) (hbelow : ∀ n < size, ∀ m ∈ below n, m < size)
    (hns : ∀ n ∈ ns, n < size) : DepthFirst below' done ns order result := by
  induction h with
  | nil order => exact .nil order
  | skip hfin _ ih => exact .skip hfin (ih fun n hn => hns n (List.mem_cons_of_mem _ hn))
  | @visit n _ _ _ _ hdone hnew _ _ ihbelow ihrest =>
    have hn := hns n List.mem_cons_self
    have hfanins := ihbelow (hbelow n hn)
    rw [← hsame n hn] at hfanins
    exact .visit hdone hnew hfanins (ihrest fun m hm => hns m (List.mem_cons_of_mem _ hm))

theorem foldl {f : List Nat → Nat → List Nat}
    (hf : ∀ order, ∀ n ∈ ns, DepthFirst below done [n] order (f order n)) :
    DepthFirst below done ns order (ns.foldl f order) := by
  induction ns generalizing order with
  | nil => exact .nil order
  | cons n ns ih =>
    have hrest : DepthFirst below done ns (f order n) (ns.foldl f (f order n)) :=
      ih fun order m hm => hf order m (List.mem_cons_of_mem _ hm)
    exact (hf order n List.mem_cons_self).cons hrest

end DepthFirst

/-- To sufficient depth the search that counts its depth is the unbounded one. -/
theorem Ranked.depthFirst_visit (G : Ranked size fanins below rank) {depth : Nat} (hn : n < size)
    (hdepth : rank n < depth) :
    DepthFirst below done [n] order (visit below done depth order n) := by
  induction depth generalizing n order with
  | zero => omega
  | succ depth ih =>
    by_cases hfin : (done n || order.contains n) = true
    · rw [visit_of_finished hfin]
      exact .skip (by simpa using hfin) (.nil order)
    · rw [visit_of_fresh hfin]
      obtain ⟨hdone, hnew⟩ : done n = false ∧ n ∉ order := by simpa using hfin
      have hbelow : DepthFirst below done (below n) order
          ((below n).foldl (Dag.visit below done depth) order) :=
        .foldl fun order m hm => ih (G.below_lt n hn m hm)
          (Nat.lt_of_lt_of_le (G.rank_lt n hn m hm) (Nat.le_of_lt_succ hdepth))
      exact .visit hdone hnew hbelow (.nil _)

/-- However many steps beyond the bound the walk could take, it answers with the result of the
search. -/
theorem Ranked.run_depthFirst (G : Ranked size fanins below rank) (done : Nat → Bool)
    (hroots : ∀ n ∈ roots, n < size) :
    ∃ order, DepthFirst below done roots [] order ∧
      ∀ fuel, roots.length + 3 * size ≤ fuel →
        Walk.run fanins done fuel (Walk.start roots) = .ok order := by
  obtain ⟨depth, hdepth⟩ := exists_depth rank size
  refine ⟨_, .foldl fun order n hn => ?_, fun fuel hfuel => G.run_eq hroots hdepth hfuel⟩
  exact G.depthFirst_visit (hroots n hn) (hdepth n (hroots n hn))

theorem Topological.mem_before (h : Topological size below done order) {before after : List Nat}
    (hsplit : order = before ++ n :: after) : ∀ m ∈ below n, done m = true ∨ m ∈ before := by
  induction h generalizing after with
  | nil => simp at hsplit
  | @concat order k _ _ _ _ hbelow ih =>
    rcases List.eq_nil_or_concat after with rfl | ⟨after, last, rfl⟩
    · obtain ⟨rfl, hk⟩ := List.append_inj' hsplit rfl
      obtain rfl : k = n := by simpa using hk
      exact hbelow
    · rw [List.concat_eq_append, ← List.cons_append, ← List.append_assoc] at hsplit
      exact ih (List.append_inj' hsplit rfl).1

end Dag
end LogicResynthesis
