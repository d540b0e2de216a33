import Mathlib.Logic.Relation
import LogicResynthesis.Proofs.Dag.DepthFirst
import LogicResynthesis.Proofs.Fault

/-!
# The walk emits what it can reach

A node is emitted exactly if fanins lead to it from a root without entering a
node that was done beforehand. If the fanins of done nodes are done as well, these
are the nodes of the cones of the roots that were not done.
-/

namespace LogicResynthesis
namespace Dag

/-- Fanins lead from the first node to the second. -/
def Leads (below : Nat → List Nat) : Nat → Nat → Prop :=
  Relation.ReflTransGen fun n m => m ∈ below n

/-- Fanins lead from the first node to the second, past no done node. -/
def LeadsAround (below : Nat → List Nat) (done : Nat → Bool) : Nat → Nat → Prop :=
  Relation.ReflTransGen fun n m => m ∈ below n ∧ done m = false

variable {size : Nat} {fanins : Nat → Except Fault (List Nat)} {below : Nat → List Nat}
  {rank : Nat → Nat} {done : Nat → Bool}

theorem mem_visit_leadsAround {depth n m : Nat} {order : List Nat}
    (hm : m ∈ visit below done depth order n) :
    m ∈ order ∨ done n = false ∧ LeadsAround below done n m := by
  induction depth generalizing order n with
  | zero => exact Or.inl hm
  | succ depth ih =>
    by_cases h : (done n || order.contains n) = true
    · rw [visit_of_finished h] at hm
      exact Or.inl hm
    · obtain ⟨hdone, -⟩ : done n = false ∧ n ∉ order := by simpa using h
      rw [visit_of_fresh h, List.mem_append, List.mem_singleton] at hm
      rcases hm with hm | rfl
      · refine (mem_foldl_or (f := visit below done depth) (fun l c _ hc => ih hc) hm).imp_right ?_
        rintro ⟨c, hc, hcdone, hleads⟩
        exact ⟨hdone, .head ⟨hc, hcdone⟩ hleads⟩
      · exact Or.inr ⟨hdone, .refl⟩

namespace Topological

variable {order : List Nat}

theorem mem_of_below (h : Topological size below done order) :
    ∀ n ∈ order, ∀ m ∈ below n, done m = true ∨ m ∈ order := by
  induction h with
  | nil => simp
  | concat _ _ _ _ hbelow ih =>
    intro k hk m hm
    rcases List.mem_append.mp hk with hk | hk
    · exact (ih k hk m hm).imp_right (List.mem_append_left _)
    · rw [List.mem_singleton.mp hk] at hm
      exact (hbelow m hm).imp_right (List.mem_append_left _)

theorem mem_of_leadsAround (h : Topological size below done order) {n m : Nat} (hn : n ∈ order)
    (hm : LeadsAround below done n m) : m ∈ order := by
  induction hm with
  | refl => exact hn
  | tail _ hstep ih =>
    obtain ⟨hbelow, hdone⟩ := hstep
    exact (h.mem_of_below _ ih _ hbelow).resolve_left (by simp [hdone])

theorem foldlM_keeps {σ ε : Type} {f : σ → Nat → Except ε σ} {P : List Nat → σ → Prop}
    (h : Topological size below done order) {s s' : σ} (hrun : order.foldlM f s = .ok s')
    (start : P [] s)
    (step : ∀ order n s s', P order s → n < size → done n = false → n ∉ order →
      f s n = .ok s' → P (order ++ [n]) s') : P order s' := by
  induction h generalizing s' with
  | nil =>
    obtain rfl := Except.ok.inj hrun
    exact start
  | @concat order n _ hn hdone hnew _ ih =>
    rw [List.foldlM_append, bind_eq_ok] at hrun
    obtain ⟨s₁, hbefore, hlast⟩ := hrun
    rw [List.foldlM_cons, bind_eq_ok] at hlast
    obtain ⟨s₂, hstep, hlast⟩ := hlast
    obtain rfl := Except.ok.inj hlast
    exact step order n s₁ s₂ (ih hbefore) hn hdone hnew hstep

end Topological

/-- The post-order of some nodes is topological, and lists what they lead to. -/
theorem Ranked.postOrder_leads (G : Ranked size fanins below rank) (done : Nat → Bool)
    {roots : List Nat} (hroots : ∀ n ∈ roots, n < size) :
    ∃ order, postOrder size fanins done roots = .ok order ∧ Topological size below done order ∧
      ∀ m, m ∈ order ↔ ∃ n ∈ roots, done n = false ∧ LeadsAround below done n m := by
  obtain ⟨depth, hdepth⟩ := exists_depth rank size
  obtain ⟨htopological, hfinished⟩ :
      Topological size below done (roots.foldl (visit below done depth) []) ∧ _ :=
    G.topological_search hroots hdepth
  refine ⟨_, G.postOrder_eq hroots hdepth, htopological, fun m => ⟨fun hm => ?_, ?_⟩⟩
  · exact (mem_foldl_or (f := visit below done depth)
      (fun _ _ _ => mem_visit_leadsAround) hm).resolve_left List.not_mem_nil
  · rintro ⟨n, hn, hdone, hleads⟩
    exact htopological.mem_of_leadsAround ((hfinished n hn).resolve_left (by simp [hdone])) hleads

theorem leadsAround_iff (hclosed : ∀ n, done n = true → ∀ m ∈ below n, done m = true) {n m : Nat} :
    (done n = false ∧ LeadsAround below done n m) ↔ done m = false ∧ Leads below n m := by
  constructor
  · rintro ⟨hn, hleads⟩
    induction hleads with
    | refl => exact ⟨hn, .refl⟩
    | tail _ hstep ih => exact ⟨hstep.2, ih.2.tail hstep.1⟩
  · rintro ⟨hm, hleads⟩
    induction hleads using Relation.ReflTransGen.head_induction_on with
    | refl => exact ⟨hm, .refl⟩
    | head hstep _ ih =>
      obtain ⟨hc, hrest⟩ := ih
      refine ⟨?_, .head ⟨hstep, hc⟩ hrest⟩
      by_contra hn
      have hcdone := hclosed _ (by simpa using hn) _ hstep
      exact Bool.false_ne_true (hc.symm.trans hcdone)

end Dag
end LogicResynthesis
