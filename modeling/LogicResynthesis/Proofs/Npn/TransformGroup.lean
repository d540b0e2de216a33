import Mathlib.Data.Fintype.EquivFin
import Mathlib.Logic.Equiv.Defs
import Mathlib.Tactic.TFAE
import LogicResynthesis.Npn.Transform

/-!
# The group of transforms

A transform whose permutation repeats no input matches the assignments of `f`
one to one with those of its canonical function. Applying and unapplying it are
then inverse to each other, and for no other transform is one of them the inverse
of the other. The 768 listed transforms are of this kind; up to their effect on
functions they contain every composition and every inverse.
-/

namespace LogicResynthesis

namespace Assignment

theorem ext_input {x y : Assignment} (h : ∀ k, x.input k = y.input k) : x = y := by
  rw [← ofInputs_input x, ← ofInputs_input y]
  exact congrArg ofInputs (funext h)

end Assignment

namespace Table4

theorem row_foldl_setRow_of_ne {α : Type} (target : α → Assignment) (value : α → Bool)
    (y : Assignment) (xs : List α) (h : ∀ x ∈ xs, target x ≠ y) (f : Table4) :
    (xs.foldl (fun f x => f.setRow (target x) (value x)) f).row y = f.row y := by
  induction xs generalizing f with
  | nil => rfl
  | cons x xs ih =>
    rw [List.foldl_cons, ih (fun z hz => h z (List.mem_cons_of_mem _ hz)), row_setRow,
      if_neg (h x List.mem_cons_self).symm]

theorem row_foldl_setRow {α : Type} [DecidableEq α] {target : α → Assignment}
    (ht : Function.Injective target) (value : α → Bool) {x : α} {xs : List α} (hx : x ∈ xs)
    (f : Table4) :
    (xs.foldl (fun f x => f.setRow (target x) (value x)) f).row (target x) = value x := by
  induction xs generalizing f with
  | nil => simp at hx
  | cons z zs ih =>
    by_cases hz : x ∈ zs
    · exact ih hz _
    · have he : x = z := (List.mem_cons.mp hx).resolve_right hz
      subst he
      have hne : ∀ w ∈ zs, target w ≠ target x := by
        intro w hw he
        exact hz (ht he ▸ hw)
      rw [List.foldl_cons, row_foldl_setRow_of_ne target value _ zs hne, row_setRow, if_pos rfl]

end Table4

namespace Npn
namespace Transform

/-- The permutation repeats no input. -/
def IsPermutation (t : Transform) : Prop := Function.Injective t.source

instance (t : Transform) : Decidable t.IsPermutation :=
  inferInstanceAs (Decidable (Function.Injective t.source))

variable {t : Transform}

theorem source_eq_getElem (t : Transform) (i : Fin 4) : t.source i = t.perm[i.val] := rfl

theorem IsPermutation.exists_source (ht : t.IsPermutation) (k : Fin 4) : ∃ i, t.source i = k :=
  (Finite.injective_iff_surjective.mp ht) k

theorem IsPermutation.canonicalRow_injective (ht : t.IsPermutation) :
    Function.Injective t.canonicalRow := by
  intro x y h
  apply Assignment.ext_input
  intro k
  obtain ⟨i, rfl⟩ := ht.exists_source k
  have hi := congrArg (fun z : Assignment => z.input i) h
  simpa only [input_canonicalRow, Bool.xor_left_inj] using hi

theorem IsPermutation.exists_canonicalRow (ht : t.IsPermutation) (y : Assignment) :
    ∃ x, t.canonicalRow x = y :=
  (Finite.injective_iff_surjective.mp ht.canonicalRow_injective) y

theorem IsPermutation.row_apply (ht : t.IsPermutation) (f : Table4) (x : Assignment) :
    (t.apply f).row (t.canonicalRow x) = (f.row x ^^ t.polarity.output) :=
  Table4.row_foldl_setRow ht.canonicalRow_injective _ (List.mem_finRange x) _

theorem IsPermutation.unapply_apply (ht : t.IsPermutation) (f : Table4) :
    t.unapply (t.apply f) = f := by
  ext x
  simp [row_unapply, ht.row_apply]

theorem IsPermutation.apply_unapply (ht : t.IsPermutation) (r : Table4) :
    t.apply (t.unapply r) = r := by
  ext y
  obtain ⟨x, rfl⟩ := ht.exists_canonicalRow y
  simp [row_unapply, ht.row_apply]

theorem IsPermutation.apply_eq_iff (ht : t.IsPermutation) {f r : Table4} :
    t.apply f = r ↔ t.unapply r = f := by
  constructor
  · rintro rfl
    exact ht.unapply_apply f
  · rintro rfl
    exact ht.apply_unapply r

/-- Only the inputs that the permutation names are seen. -/
theorem canonicalRow_congr {x y : Assignment}
    (h : ∀ i, x.input (t.source i) = y.input (t.source i)) :
    t.canonicalRow x = t.canonicalRow y := by
  apply Assignment.ext_input
  intro i
  rw [input_canonicalRow, input_canonicalRow, h]

theorem isPermutation_of_canonicalRow_injective (h : Function.Injective t.canonicalRow) :
    t.IsPermutation := by
  refine Finite.injective_iff_surjective.mpr fun k => ?_
  by_contra hk
  push Not at hk
  -- The two assignments differ in input `k` alone, which nothing is wired to.
  have hsame : t.canonicalRow (Assignment.ofInputs fun _ => false) =
      t.canonicalRow (Assignment.ofInputs fun j => decide (j = k)) := by
    apply canonicalRow_congr
    intro i
    simp [Assignment.input_ofInputs, hk i]
  have hinput := congrArg (fun x : Assignment => x.input k) (h hsame)
  simp [Assignment.input_ofInputs] at hinput

/-- What is lost in `t.apply f` cannot be got back, so no two rows may fall together. -/
theorem canonicalRow_injective_of_unapply_apply (h : ∀ f, t.unapply (t.apply f) = f) :
    Function.Injective t.canonicalRow := by
  intro x y hxy
  apply Assignment.ext_input
  intro k
  have hback : ∀ z : Assignment, z.input k =
      ((t.apply (Table4.projection k)).row (t.canonicalRow z) ^^ t.polarity.output) := by
    intro z
    rw [← row_unapply, h, Table4.row_projection]
  rw [hback x, hback y, hxy]

theorem row_apply_of_ne {y : Assignment} (h : ∀ x, t.canonicalRow x ≠ y) (f : Table4) :
    (t.apply f).row y = false := by
  rw [apply, Table4.row_foldl_setRow_of_ne _ _ y _ (fun x _ => h x), Table4.row_zero]

/-- A row that is never written is `false`, so to reach every function all rows must be written. -/
theorem canonicalRow_injective_of_apply_unapply (h : ∀ r, t.apply (t.unapply r) = r) :
    Function.Injective t.canonicalRow := by
  refine Finite.injective_iff_surjective.mpr fun y => ?_
  by_contra hy
  have hfalse := row_apply_of_ne (not_exists.mp hy) (t.unapply Table4.one)
  rw [h, Table4.row_one] at hfalse
  cases hfalse

/-- The transform with the given wiring of the inputs and the given complements. -/
def wiring (source : Fin 4 → Fin 4) (negated : Fin 4 → Bool) (output : Bool) : Transform :=
  ⟨Vector.ofFn source, ⟨BitVec.ofNat 8 (column negated).toNat, output⟩⟩

@[simp] theorem source_wiring (source : Fin 4 → Fin 4) (negated : Fin 4 → Bool) (output : Bool) :
    (wiring source negated output).source = source := by
  funext i
  simp [source_eq_getElem, wiring]

@[simp] theorem inputNegated_wiring (source : Fin 4 → Fin 4) (negated : Fin 4 → Bool)
    (output : Bool) (k : Fin 4) :
    (wiring source negated output).polarity.inputNegated k = negated k := by
  have h := getLsbD_column negated k
  have hk : k.val < 8 := by omega
  simpa [wiring, Polarity.inputNegated, BitVec.getLsbD_ofNat, hk] using h

@[simp] theorem output_wiring (source : Fin 4 → Fin 4) (negated : Fin 4 → Bool) (output : Bool) :
    (wiring source negated output).polarity.output = output := rfl

theorem ofFn_mem_permutations {source : Fin 4 → Fin 4} (h : Function.Injective source) :
    Vector.ofFn source ∈ permutations := by
  have hne : ∀ i j, i ≠ j → source i ≠ source j := fun i j hij he => hij (h he)
  simp only [permutations, List.mem_flatMap, List.mem_map, List.mem_filter, List.mem_finRange,
    true_and, decide_eq_true_eq]
  refine ⟨source 0, source 1, hne _ _ (by decide), source 2,
    ⟨hne _ _ (by decide), hne _ _ (by decide)⟩, source 3,
    ⟨hne _ _ (by decide), hne _ _ (by decide), hne _ _ (by decide)⟩, ?_⟩
  rfl

theorem wiring_mem_all {source : Fin 4 → Fin 4} (h : Function.Injective source)
    (negated : Fin 4 → Bool) (output : Bool) : wiring source negated output ∈ all := by
  simp only [all, List.mem_flatMap, List.mem_map]
  refine ⟨Vector.ofFn source, ofFn_mem_permutations h, (column negated).toFin,
    List.mem_finRange _, output, ?_, rfl⟩
  cases output <;> simp

theorem injective_of_mem_permutations {perm : Vector (Fin 4) 4} (h : perm ∈ permutations) :
    Function.Injective perm.get := by
  simp only [permutations, List.mem_flatMap, List.mem_map, List.mem_filter, List.mem_finRange,
    true_and, decide_eq_true_eq] at h
  obtain ⟨a, b, hba, c, ⟨hca, hcb⟩, d, ⟨hda, hdb, hdc⟩, rfl⟩ := h
  have hne : ∀ i j : Fin 4, i < j → #v[a, b, c, d].get i ≠ #v[a, b, c, d].get j := by
    simp only [Fin.forall_fin_succ]
    simp [Vector.get, hba.symm, hca.symm, hcb.symm, hda.symm, hdb.symm, hdc.symm]
  intro i j hij
  rcases Nat.lt_trichotomy i.val j.val with hlt | heq | hgt
  · exact absurd hij (hne i j hlt)
  · exact Fin.ext heq
  · exact absurd hij.symm (hne j i hgt)

theorem isPermutation_of_mem_all (h : t ∈ all) : t.IsPermutation := by
  simp only [all, List.mem_flatMap, List.mem_map] at h
  obtain ⟨perm, hperm, _, _, _, _, rfl⟩ := h
  exact injective_of_mem_permutations hperm

theorem identity_eq_wiring : identity = wiring id (fun _ => false) false := by decide +kernel

theorem identity_mem_all : identity ∈ all := by
  rw [identity_eq_wiring]
  exact wiring_mem_all Function.injective_id _ _

@[simp] theorem source_identity (i : Fin 4) : identity.source i = i := by
  simp [source_eq_getElem, identity]

@[simp] theorem unapply_identity (f : Table4) : identity.unapply f = f := by
  ext x
  rw [row_unapply]
  have hx : identity.canonicalRow x = x := by
    apply Assignment.ext_input
    intro k
    rw [input_canonicalRow, source_identity]
    simp [identity, Polarity.inputNegated]
  rw [hx]
  simp [identity]

theorem exists_comp {s t : Transform} (hs : s.IsPermutation) (ht : t.IsPermutation) :
    ∃ u ∈ all, ∀ f, t.unapply (s.unapply f) = u.unapply f := by
  obtain ⟨back, hback⟩ := (Finite.injective_iff_bijective.mp ht).2.hasRightInverse
  have hfront : ∀ i, back (t.source i) = i := fun i => ht (hback (t.source i))
  let u := wiring (fun i => t.source (s.source i))
    (fun k => t.polarity.inputNegated k ^^ s.polarity.inputNegated (back k))
    (s.polarity.output ^^ t.polarity.output)
  refine ⟨u, wiring_mem_all (fun i j h => hs (ht h)) _ _, fun f => ?_⟩
  have hrow : ∀ x, s.canonicalRow (t.canonicalRow x) = u.canonicalRow x := by
    intro x
    apply Assignment.ext_input
    intro i
    simp [u, input_canonicalRow, hfront]
  ext x
  simp [row_unapply, hrow, u]

theorem exists_inverse (ht : t.IsPermutation) : ∃ u ∈ all, ∀ f, t.apply f = u.unapply f := by
  obtain ⟨back, hback⟩ := (Finite.injective_iff_bijective.mp ht).2.hasRightInverse
  have hfront : ∀ i, back (t.source i) = i := fun i => ht (hback (t.source i))
  let u := wiring back (fun i => t.polarity.inputNegated (t.source i)) t.polarity.output
  refine ⟨u, wiring_mem_all (Function.RightInverse.injective hback) _ _, fun f => ?_⟩
  have hrow : ∀ x, u.canonicalRow (t.canonicalRow x) = x := by
    intro x
    apply Assignment.ext_input
    intro k
    simp [u, input_canonicalRow, hback k]
  ext y
  obtain ⟨x, rfl⟩ := ht.exists_canonicalRow y
  rw [ht.row_apply, row_unapply, hrow, output_wiring]

/-- Applying and unapplying a transform undo each other, and already one of them the other, if and
only if the permutation is a bijection. Composing two such transforms, or inverting one, has the
effect of unapplying a listed one. -/
theorem round_trips_iff_bijective :
    (∀ t : Transform, List.TFAE [
      Function.Bijective t.source,
      ∀ f, t.unapply (t.apply f) = f ∧ t.apply (t.unapply f) = f,
      ∀ f, t.unapply (t.apply f) = f,
      ∀ f, t.apply (t.unapply f) = f]) ∧
    ∀ s t : Transform, Function.Bijective s.source → Function.Bijective t.source →
      (∃ u ∈ all, ∀ f, t.unapply (s.unapply f) = u.unapply f) ∧
      ∃ u ∈ all, ∀ f, s.apply f = u.unapply f := by
  refine ⟨fun t => ?_, fun s t hs ht => ⟨exists_comp hs.1 ht.1, exists_inverse hs.1⟩⟩
  have hbijective : Function.Injective t.canonicalRow → Function.Bijective t.source := fun h =>
    Finite.injective_iff_bijective.mp (isPermutation_of_canonicalRow_injective h)
  tfae_have 1 → 2 := fun ht f =>
    ⟨IsPermutation.unapply_apply ht.1 f, IsPermutation.apply_unapply ht.1 f⟩
  tfae_have 2 → 3 := fun h f => (h f).1
  tfae_have 2 → 4 := fun h f => (h f).2
  tfae_have 3 → 1 := fun h => hbijective (canonicalRow_injective_of_unapply_apply h)
  tfae_have 4 → 1 := fun h => hbijective (canonicalRow_injective_of_apply_unapply h)
  tfae_finish

/-- Canonical input 0 is the complement of input 2, canonical input 2 is input 0. -/
def swapped : Transform := ⟨#v[2, 1, 0, 3], ⟨0b0100, false⟩⟩

/-- The mask has bits past the fourth, and the output is complemented. -/
def rotated : Transform := ⟨#v[1, 2, 3, 0], ⟨0xA1, true⟩⟩

/-- Input 0 drives two canonical inputs, input 3 none. -/
def repeated : Transform := ⟨#v[0, 0, 1, 2], ⟨0, true⟩⟩

theorem round_trips_swapped_rotated :
    Function.Bijective swapped.source ∧ Function.Bijective rotated.source ∧
      (∃ u ∈ all, ∀ f, rotated.unapply (swapped.unapply f) = u.unapply f) ∧
      (∃ u ∈ all, ∀ f, swapped.apply f = u.unapply f) ∧
      (¬ ∀ f, repeated.unapply (repeated.apply f) = f) ∧
      ¬ ∀ f, repeated.apply (repeated.unapply f) = f := by
  have hswapped : Function.Bijective swapped.source := by decide +kernel
  have hrotated : Function.Bijective rotated.source := by decide +kernel
  have hrepeated : ¬ Function.Bijective repeated.source := by decide +kernel
  obtain ⟨hcomposed, hinverse⟩ := round_trips_iff_bijective.2 swapped rotated hswapped hrotated
  refine ⟨hswapped, hrotated, hcomposed, hinverse, ?_, ?_⟩
  · exact fun h => hrepeated (((round_trips_iff_bijective.1 repeated).out 0 2).mpr h)
  · exact fun h => hrepeated (((round_trips_iff_bijective.1 repeated).out 0 3).mpr h)

end Transform
end Npn
end LogicResynthesis
