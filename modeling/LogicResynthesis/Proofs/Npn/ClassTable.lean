import LogicResynthesis.Proofs.Npn.OrbitScan

/-!
# The standard table

The table of all functions gives each the entry of the exhaustive search. Its
representatives are the smallest functions of the classes, one for each.
-/

namespace LogicResynthesis
namespace Npn
namespace ClassTable

theorem lookup_ofScan {scan : OrbitScan} {f : Table4} {e : Entry}
    (h : OrbitScan.find? scan.slots f = some e) : (ofScan scan).lookup f = e := by
  have hf := toNat_lt f
  have hslot : scan.slots[f.toNat] = some e := h
  change (Vector.ofFn _)[f.toNat] = e
  simp [hslot]

theorem classes_ofScan (scan : OrbitScan) : (ofScan scan).classes = scan.classes := rfl

theorem lookup_standard (f : Table4) : standard.lookup f = canonical f :=
  lookup_ofScan (OrbitScan.find?_complete f)

theorem representative_standard (f : Table4) :
    standard.representative f = (canonical f).representative := by
  rw [representative, lookup_standard]

theorem representatives_standard :
    standard.representatives = OrbitScan.leastBelow numFunctions := by
  unfold representatives OrbitScan.leastBelow
  apply List.filter_congr
  intro f _
  rw [isRepresentative, representative_standard]

theorem mem_representatives_standard (f : Table4) :
    f ∈ standard.representatives ↔ (canonical f).representative = f := by
  rw [representatives_standard, OrbitScan.leastBelow, List.mem_filter, decide_eq_true_eq]
  have hf : f ∈ (List.range numFunctions).map Table4.ofNat :=
    List.mem_map.mpr ⟨f.toNat, List.mem_range.mpr (toNat_lt f), f.ofNat_toNat⟩
  exact and_iff_right hf

theorem pairwise_leastBelow {n : Nat} (hn : n ≤ numFunctions) :
    (OrbitScan.leastBelow n).Pairwise fun f g => f.toNat < g.toNat := by
  apply List.Pairwise.filter
  rw [List.pairwise_map]
  apply List.pairwise_lt_range.imp_of_mem
  intro a b ha hb hab
  rw [List.mem_range] at ha hb
  rw [Table4.toNat_ofNat (Nat.lt_of_lt_of_le ha hn), Table4.toNat_ofNat (Nat.lt_of_lt_of_le hb hn)]
  exact hab

theorem existsUnique_representative (f : Table4) :
    ∃! r, r ∈ standard.representatives ∧ Equivalent f r := by
  refine ⟨(canonical f).representative, ⟨?_, equivalent_canonical f⟩, ?_⟩
  · exact (mem_representatives_standard _).mpr (canonical_representative_self f)
  · rintro r ⟨hr, hfr⟩
    rw [mem_representatives_standard] at hr
    rw [← hr]
    exact ((canonical_representative_eq_iff f r).mpr hfr).symm

section CountTrue

variable {f : Table4} (hf : f.toNat + 1 = 2 ^ f.countTrue) (hhalf : f.countTrue ≤ 8)

include hf hhalf

theorem lookup_of_countTrue : standard.lookup f = ⟨f, Transform.identity⟩ := by
  rw [lookup_standard, canonical_of_countTrue hf hhalf]

theorem representative_of_countTrue : standard.representative f = f := by
  rw [representative, lookup_of_countTrue hf hhalf]

theorem isRepresentative_of_countTrue : standard.isRepresentative f = true := by
  rw [isRepresentative_iff, representative_of_countTrue hf hhalf]

end CountTrue

/-- The standard table is a complete invariant of the classes. -/
theorem standard_classifies :
    (∀ f g, standard.representative f = standard.representative g ↔
      ∃ t ∈ Transform.all, g = t.unapply f) ∧
    (∀ f, (∃ t ∈ Transform.all, t.unapply f = standard.representative f) ∧
      (∀ t ∈ Transform.all, (standard.representative f).toNat ≤ (t.unapply f).toNat) ∧
      (∃ t ∈ Transform.all, t.apply f = standard.representative f) ∧
      (∀ t ∈ Transform.all, (standard.representative f).toNat ≤ (t.apply f).toNat) ∧
      standard.representative (standard.representative f) = standard.representative f) ∧
    (∀ f, (standard.lookup f).transform.unapply (standard.lookup f).representative = f) ∧
    (standard.representatives.Pairwise fun f g => f.toNat < g.toNat) ∧
    (∀ f, ∃! r, r ∈ standard.representatives ∧ ∃ t ∈ Transform.all, r = t.unapply f) ∧
    standard.representatives.length = standard.classes := by
  simp only [representative_standard, lookup_standard]
  refine ⟨canonical_representative_eq_iff, fun f => ⟨?_, ?_, ?_, ?_, ?_⟩, unapply_canonical, ?_,
    existsUnique_representative, ?_⟩
  · obtain ⟨t, ht, he⟩ := equivalent_canonical f
    exact ⟨t, ht, he.symm⟩
  · intro t ht
    exact canonical_le (Equivalent.unapply ht f)
  · exact ⟨_, transform_canonical_mem f, apply_canonical f⟩
  · intro t ht
    exact canonical_le (Equivalent.apply ht f)
  · exact canonical_representative_self f
  · rw [representatives_standard]
    exact pairwise_leastBelow (Nat.le_refl _)
  · rw [representatives_standard, ← OrbitScan.classes_complete, standard, classes_ofScan]

/-- The orbit scan fills every slot, with the entry that the exhaustive search finds: the
representative, and the first listed transform that leads to it. -/
theorem scan_agrees_with_search (f : Table4) :
    OrbitScan.find? OrbitScan.complete.slots f = some (canonical f) ∧
      standard.lookup f = canonical f ∧
      Transform.all.find? (fun t => t.apply f == (standard.lookup f).representative) =
        some (standard.lookup f).transform := by
  refine ⟨OrbitScan.find?_complete f, lookup_standard f, ?_⟩
  rw [lookup_standard]
  exact find?_canonical f

end ClassTable
end Npn
end LogicResynthesis
