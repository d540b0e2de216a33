import Mathlib.Data.Set.Card
import LogicResynthesis.Proofs.Dag.Reachability

/-!
# Graphs without cycles

A graph in which no node is below itself need not be in creation order. Its nodes
are ranked by how many nodes they lead to.
-/

namespace LogicResynthesis
namespace Dag

/-- No node is below itself. -/
def Acyclic (below : Nat → List Nat) : Prop :=
  ∀ n, ¬Relation.TransGen (fun n m => m ∈ below n) n n

variable {size : Nat} {below : Nat → List Nat}

theorem lt_of_leads (hlt : ∀ n < size, ∀ m ∈ below n, m < size) {n m : Nat} (hn : n < size)
    (h : Leads below n m) : m < size := by
  induction h with
  | refl => exact hn
  | tail _ hstep ih => exact hlt _ ih _ hstep

theorem leads_iff_of_agree {below' : Nat → List Nat} (hlt : ∀ n < size, ∀ m ∈ below n, m < size)
    (hagree : ∀ n < size, below' n = below n) {n m : Nat} (hn : n < size) :
    Leads below' n m ↔ Leads below n m := by
  constructor
  · intro h
    have hold : Leads below n m ∧ m < size := by
      induction h with
      | refl => exact ⟨.refl, hn⟩
      | tail _ hstep ih =>
        rw [hagree _ ih.2] at hstep
        exact ⟨.tail ih.1 hstep, hlt _ ih.2 _ hstep⟩
    exact hold.1
  · intro h
    induction h with
    | refl => exact .refl
    | tail hleads hstep ih =>
      rw [← hagree _ (lt_of_leads hlt hn hleads)] at hstep
      exact .tail ih hstep

theorem finite_leads (hlt : ∀ n < size, ∀ m ∈ below n, m < size) {n : Nat} (hn : n < size) :
    {m | Leads below n m}.Finite :=
  (Set.finite_lt_nat size).subset fun _ hm => lt_of_leads hlt hn hm

theorem acyclic_of_rank {rank : Nat → Nat} (h : ∀ n, ∀ m ∈ below n, rank m < rank n) :
    Acyclic below := by
  intro n hcycle
  have hlower : ∀ m, Relation.TransGen (fun n m => m ∈ below n) n m → rank m < rank n := by
    intro m hm
    induction hm with
    | single hstep => exact h n _ hstep
    | tail _ hstep ih => exact Nat.lt_trans (h _ _ hstep) ih
  exact Nat.lt_irrefl _ (hlower n hcycle)

theorem Acyclic.exists_rank (h : Acyclic below) (hlt : ∀ n < size, ∀ m ∈ below n, m < size) :
    ∃ rank : Nat → Nat, ∀ n < size, ∀ m ∈ below n, rank m < rank n := by
  refine ⟨fun n => {m | Leads below n m}.ncard, fun n hn m hm => ?_⟩
  apply Set.ncard_lt_ncard _ (finite_leads hlt hn)
  constructor
  · exact fun k hk => .head hm hk
  · intro hsub
    have hback : Leads below m n := hsub .refl
    exact h n (.head' hm hback)

end Dag
end LogicResynthesis
