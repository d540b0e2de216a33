import Mathlib.Data.List.Find
import LogicResynthesis.Npn.ClassTable
import LogicResynthesis.Proofs.Npn.Classes

/-!
# The orbit scan and the exhaustive search

After the first `n` functions have been visited, exactly the functions whose
smallest equivalent lies below `n` have an entry, and it is the one that the
exhaustive search finds. The finished table is therefore a complete invariant of
the classes, and every slot is filled.
-/

namespace LogicResynthesis
namespace Npn
namespace OrbitScan

theorem find?_empty (f : Table4) : find? empty.slots f = none :=
  Vector.getElem_replicate (toNat_lt f)

theorem find?_claim (slots : Slots) (f g : Table4) (e : Entry) :
    find? (claim slots f e) g = (find? slots g).or (if f = g then some e else none) := by
  by_cases hfg : f = g
  · subst hfg
    cases hf : find? slots f with
    | none =>
      simp only [claim, hf, Option.isNone_none, if_true, Option.none_or]
      exact Vector.getElem_set_self _
    | some d => simp [claim, hf]
  · rw [if_neg hfg, Option.or_none]
    unfold claim
    split_ifs
    · exact Vector.getElem_set_ne _ _ fun h => hfg (Table4.toNat_injective h)
    · rfl

theorem find?_claimOrbit (slots : Slots) (r g : Table4) :
    find? (claimOrbit slots r) g =
      (find? slots g).or ((Transform.all.find? fun t => t.unapply r == g).map (Entry.mk r)) := by
  unfold claimOrbit
  generalize Transform.all = ts
  induction ts generalizing slots with
  | nil => simp
  | cons t ts ih =>
    rw [List.foldl_cons, ih, find?_claim, Option.or_assoc]
    by_cases ht : t.unapply r = g
    · rw [if_pos ht, List.find?_cons_of_pos (by simpa using ht)]
      rfl
    · rw [if_neg ht, Option.none_or, List.find?_cons_of_neg (by simpa using ht)]

/-- The scan after the functions below `n`. -/
def visited (n : Nat) : OrbitScan :=
  (List.range n).foldl (fun scan k => scan.visit (Table4.ofNat k)) empty

theorem visited_succ (n : Nat) : visited (n + 1) = (visited n).visit (Table4.ofNat n) := by
  simp [visited, List.range_succ]

theorem complete_eq_visited : complete = visited numFunctions := rfl

/-- The smallest functions of their classes among those below `n`. -/
def leastBelow (n : Nat) : List Table4 :=
  ((List.range n).map Table4.ofNat).filter fun f => (canonical f).representative = f

theorem leastBelow_succ (n : Nat) :
    leastBelow (n + 1) = leastBelow n ++
      if (canonical (Table4.ofNat n)).representative = Table4.ofNat n
      then [Table4.ofNat n] else [] := by
  simp [leastBelow, List.range_succ, List.filter_cons]

/-- What the scan has found after the functions below `n`. -/
structure Found (n : Nat) (scan : OrbitScan) : Prop where
  find?_eq : ∀ g, find? scan.slots g =
    if (canonical g).representative.toNat < n then some (canonical g) else none
  classes_eq : scan.classes = (leastBelow n).length

theorem found_empty : Found 0 empty where
  find?_eq g := by simp [find?_empty]
  classes_eq := rfl

theorem find?_unapply_of_least {r : Table4} (hr : (canonical r).representative = r) (g : Table4) :
    (Transform.all.find? fun t => t.unapply r == g).map (Entry.mk r) =
      if (canonical g).representative = r then some (canonical g) else none := by
  split_ifs with hg
  · have hsame : Transform.all.find? (fun t => t.unapply r == g) =
        Transform.all.find? (fun t => t.apply g == (canonical g).representative) := by
      apply List.find?_congr
      intro t ht
      have hiff := (Transform.isPermutation_of_mem_all ht).apply_eq_iff (f := g) (r := r)
      rw [hg, Bool.eq_iff_iff, beq_iff_eq, beq_iff_eq, hiff]
    rw [hsame, find?_canonical, Option.map_some, ← hg, Entry.mk_eta]
  · rw [Option.map_eq_none_iff, List.find?_eq_none]
    intro t ht hrg
    have hequiv : Equivalent r g := ⟨t, ht, (eq_of_beq hrg).symm⟩
    exact hg (((canonical_representative_eq_iff r g).mpr hequiv).symm.trans hr)

section Visit

variable {n : Nat} {scan : OrbitScan}

/-- A function that is the smallest of its class has not been reached yet; its visit adds the
entries of the class. -/
theorem Found.visit_least (h : Found n scan) (hn : n < numFunctions)
    (hleast : (canonical (Table4.ofNat n)).representative = Table4.ofNat n) :
    Found (n + 1) (scan.visit (Table4.ofNat n)) := by
  obtain ⟨slots, classes⟩ := scan
  obtain ⟨hfind, hclasses⟩ := h
  dsimp only at hfind hclasses
  have hnat : (Table4.ofNat n).toNat = n := Table4.toNat_ofNat hn
  have hnone : find? slots (Table4.ofNat n) = none := by
    rw [hfind, hleast, hnat, if_neg (Nat.lt_irrefl n)]
  have hvisit : OrbitScan.visit ⟨slots, classes⟩ (Table4.ofNat n) =
      ⟨claimOrbit slots (Table4.ofNat n), classes + 1⟩ := by
    simp [OrbitScan.visit, hnone]
  rw [hvisit]
  constructor
  · intro g
    rw [find?_claimOrbit, hfind, find?_unapply_of_least hleast]
    rcases Nat.lt_trichotomy (canonical g).representative.toNat n with hlt | heq | hgt
    · rw [if_pos hlt, if_pos (Nat.lt_succ_of_lt hlt), Option.some_or]
    · have hg : (canonical g).representative = Table4.ofNat n := by rw [← heq, Table4.ofNat_toNat]
      rw [if_neg (by omega), if_pos hg, if_pos (by omega), Option.none_or]
    · have hg : (canonical g).representative ≠ Table4.ofNat n := by
        intro he
        rw [he, hnat] at hgt
        omega
      rw [if_neg (by omega), if_neg hg, if_neg (by omega), Option.none_or]
  · rw [leastBelow_succ, if_pos hleast, List.length_append, hclasses]
    rfl

/-- Any other function has been reached from the smallest of its class; its visit changes
nothing. -/
theorem Found.visit_known (h : Found n scan) (hn : n < numFunctions)
    (hleast : (canonical (Table4.ofNat n)).representative ≠ Table4.ofNat n) :
    Found (n + 1) (scan.visit (Table4.ofNat n)) := by
  obtain ⟨slots, classes⟩ := scan
  obtain ⟨hfind, hclasses⟩ := h
  dsimp only at hfind hclasses
  have hnat : (Table4.ofNat n).toNat = n := Table4.toNat_ofNat hn
  have hlt : (canonical (Table4.ofNat n)).representative.toNat < n := by
    have hle := canonical_le (Equivalent.refl (Table4.ofNat n))
    rw [hnat] at hle
    apply Nat.lt_of_le_of_ne hle
    intro he
    exact hleast (Table4.toNat_injective (he.trans hnat.symm))
  have hsome : find? slots (Table4.ofNat n) = some (canonical (Table4.ofNat n)) := by
    rw [hfind, if_pos hlt]
  have hvisit : OrbitScan.visit ⟨slots, classes⟩ (Table4.ofNat n) = ⟨slots, classes⟩ := by
    simp [OrbitScan.visit, hsome]
  rw [hvisit]
  constructor
  · intro g
    -- No class has `n` as its smallest function, as `n` is not smallest in its own.
    have hne : (canonical g).representative.toNat ≠ n := by
      intro he
      have hself := canonical_representative_self g
      rw [← Table4.ofNat_toNat (canonical g).representative, he] at hself
      exact hleast hself
    rw [hfind]
    by_cases hg : (canonical g).representative.toNat < n
    · rw [if_pos hg, if_pos (Nat.lt_succ_of_lt hg)]
    · rw [if_neg hg, if_neg (by omega)]
  · rw [leastBelow_succ, if_neg hleast, List.append_nil]
    exact hclasses

theorem Found.visit (h : Found n scan) (hn : n < numFunctions) :
    Found (n + 1) (scan.visit (Table4.ofNat n)) := by
  by_cases hleast : (canonical (Table4.ofNat n)).representative = Table4.ofNat n
  · exact h.visit_least hn hleast
  · exact h.visit_known hn hleast

end Visit

theorem found_visited {n : Nat} (hn : n ≤ numFunctions) : Found n (visited n) := by
  induction n with
  | zero => exact found_empty
  | succ n ih =>
    rw [visited_succ]
    exact (ih (Nat.le_of_succ_le hn)).visit hn

theorem find?_complete (f : Table4) : find? complete.slots f = some (canonical f) := by
  rw [complete_eq_visited, (found_visited (Nat.le_refl _)).find?_eq, if_pos (toNat_lt _)]

theorem classes_complete : complete.classes = (leastBelow numFunctions).length :=
  (found_visited (Nat.le_refl _)).classes_eq

end OrbitScan

end Npn
end LogicResynthesis
