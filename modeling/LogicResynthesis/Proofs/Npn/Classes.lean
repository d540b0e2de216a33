import Mathlib.Algebra.Ring.Nat
import Mathlib.Data.Fintype.Card
import LogicResynthesis.Npn.Canonical
import LogicResynthesis.Proofs.Npn.TransformGroup

/-!
# Classes of functions and their smallest members

Functions that a listed transform relates form classes. The exhaustive search
finds the smallest member of the class of a function, and of the transforms that
lead there the one that is listed first. Transforms permute the outputs of a
function and may complement them all, so they keep or swap the numbers of `true`
and of `false` outputs.
-/

namespace LogicResynthesis

namespace Table4

theorem toNat_injective : Function.Injective toNat := by
  rintro ⟨f⟩ ⟨g⟩ h
  exact congrArg Table4.mk (BitVec.eq_of_toNat_eq h)

def countTrue (f : Table4) : Nat := (Finset.univ.filter fun x => f.row x = true).card

/-- A number with `c` of its bits set is no smaller than the one with the `c` lowest bits set. -/
theorem two_pow_card_le (n w : Nat) :
    2 ^ ((Finset.range w).filter fun i => n.testBit i = true).card ≤ n % 2 ^ w + 1 := by
  induction w with
  | zero => simp
  | succ w ih =>
    have hcard : ((Finset.range w).filter fun i => n.testBit i = true).card ≤ w :=
      (Finset.card_filter_le _ _).trans_eq (Finset.card_range w)
    have hpow := Nat.pow_le_pow_right (Nat.two_pos) hcard
    rw [Finset.range_add_one, Finset.filter_insert, Nat.mod_pow_succ]
    split_ifs with hbit
    · rw [Finset.card_insert_of_notMem (by simp), Nat.pow_succ]
      rw [Nat.testBit_eq_decide_div_mod_eq, decide_eq_true_eq] at hbit
      rw [hbit]
      omega
    · exact ih.trans (by omega)

theorem two_pow_countTrue_le (f : Table4) : 2 ^ f.countTrue ≤ f.toNat + 1 := by
  have hrange : (Finset.univ.filter fun x => f.row x = true).map Fin.valEmbedding =
      (Finset.range 16).filter fun i => f.toNat.testBit i = true := by
    ext i
    simp only [Finset.mem_map, Finset.mem_filter, Finset.mem_univ, true_and, Finset.mem_range]
    constructor
    · rintro ⟨x, hx, rfl⟩
      exact ⟨x.isLt, hx⟩
    · rintro ⟨hi, hrow⟩
      exact ⟨⟨i, hi⟩, hrow, rfl⟩
  have hlt : f.toNat < 2 ^ 16 := f.bits.isLt
  have hle := two_pow_card_le f.toNat 16
  rwa [← hrange, Finset.card_map, Nat.mod_eq_of_lt hlt] at hle

end Table4

namespace Npn

/-- Some listed transform leads from `f` to `g`. -/
def Equivalent (f g : Table4) : Prop := ∃ t ∈ Transform.all, g = t.unapply f

namespace Equivalent

variable {f g h : Table4}

theorem refl (f : Table4) : Equivalent f f :=
  ⟨Transform.identity, Transform.identity_mem_all, (Transform.unapply_identity f).symm⟩

theorem trans (hfg : Equivalent f g) (hgh : Equivalent g h) : Equivalent f h := by
  obtain ⟨s, hs, rfl⟩ := hfg
  obtain ⟨t, ht, rfl⟩ := hgh
  obtain ⟨u, hu, hcomp⟩ := Transform.exists_comp (Transform.isPermutation_of_mem_all hs)
    (Transform.isPermutation_of_mem_all ht)
  exact ⟨u, hu, hcomp f⟩

theorem apply {t : Transform} (ht : t ∈ Transform.all) (f : Table4) :
    Equivalent f (t.apply f) := by
  obtain ⟨u, hu, hinv⟩ := Transform.exists_inverse (Transform.isPermutation_of_mem_all ht)
  exact ⟨u, hu, hinv f⟩

theorem unapply {t : Transform} (ht : t ∈ Transform.all) (f : Table4) :
    Equivalent f (t.unapply f) := ⟨t, ht, rfl⟩

theorem symm (hfg : Equivalent f g) : Equivalent g f := by
  obtain ⟨t, ht, rfl⟩ := hfg
  have hback := apply ht (t.unapply f)
  rwa [(Transform.isPermutation_of_mem_all ht).apply_unapply] at hback

theorem exists_apply (hfg : Equivalent f g) : ∃ t ∈ Transform.all, t.apply f = g := by
  obtain ⟨t, ht, rfl⟩ := hfg.symm
  exact ⟨t, ht, (Transform.isPermutation_of_mem_all ht).apply_unapply g⟩

end Equivalent

namespace Entry

@[simp] theorem representative_image (f : Table4) (t : Transform) :
    (image f t).representative = t.apply f := rfl

@[simp] theorem transform_image (f : Table4) (t : Transform) : (image f t).transform = t := rfl

theorem mk_eta (e : Entry) : Entry.mk e.representative e.transform = e := rfl

theorem smaller_eq (e d : Entry) :
    e.smaller d = e ∧ e.representative.toNat ≤ d.representative.toNat ∨
      e.smaller d = d ∧ d.representative.toNat < e.representative.toNat := by
  unfold smaller
  split_ifs with h
  · exact Or.inr ⟨rfl, h⟩
  · exact Or.inl ⟨rfl, Nat.le_of_not_lt h⟩

theorem foldl_smaller_le (es : List Entry) (e : Entry) :
    ∀ d ∈ e :: es, (es.foldl smaller e).representative.toNat ≤ d.representative.toNat := by
  induction es generalizing e with
  | nil => simp
  | cons c es ih =>
    intro d hd
    have hbest := ih (e.smaller c) _ List.mem_cons_self
    rw [List.mem_cons, List.mem_cons] at hd
    rw [List.foldl_cons]
    rcases hd with rfl | rfl | hd
    · exact hbest.trans (smaller_le_left d c)
    · exact hbest.trans (smaller_le_right e d)
    · exact ih (e.smaller c) d (List.mem_cons_of_mem _ hd)

/-- Of several entries the search keeps the first one that is smallest. -/
theorem find?_foldl_smaller (es : List Entry) (e : Entry) :
    (e :: es).find? (fun d => d.representative == (es.foldl smaller e).representative) =
      some (es.foldl smaller e) := by
  induction es generalizing e with
  | nil => simp
  | cons d es ih =>
    have hle := foldl_smaller_le es (e.smaller d) _ List.mem_cons_self
    have hfirst := ih (e.smaller d)
    rw [List.foldl_cons]
    rcases smaller_eq e d with ⟨heq, hed⟩ | ⟨heq, hde⟩
    · rw [heq] at hle hfirst ⊢
      by_cases he : e.representative = (es.foldl smaller e).representative
      · simpa [List.find?_cons_of_pos, he] using hfirst
      · have hd : d.representative ≠ (es.foldl smaller e).representative := by
          intro hd
          rw [← hd] at hle he
          exact he (Table4.toNat_injective (Nat.le_antisymm hed hle))
        simpa [List.find?_cons_of_neg, he, hd] using hfirst
    · rw [heq] at hle hfirst ⊢
      have he : e.representative ≠ (es.foldl smaller d).representative := by
        intro he
        rw [he] at hde
        omega
      rw [List.find?_cons_of_neg (by simpa using he)]
      exact hfirst

end Entry

theorem head_all : Transform.all.head? = some Transform.identity := by decide +kernel

/-- The search starts from the identity, which is also the first transform it tries. -/
theorem find?_canonical_image (f : Table4) :
    (Transform.all.map (Entry.image f)).find?
        (fun d => d.representative == (canonical f).representative) = some (canonical f) := by
  have hfirst := Entry.find?_foldl_smaller (Transform.all.map (Entry.image f))
    (Entry.image f Transform.identity)
  obtain ⟨rest, hall⟩ : ∃ rest, Transform.all = Transform.identity :: rest :=
    List.head?_eq_some_iff.mp head_all
  change List.find? (fun d => d.representative == (canonical f).representative) _ =
    some (canonical f) at hfirst
  rw [hall, List.map_cons] at hfirst ⊢
  by_cases hid : Transform.identity.apply f = (canonical f).representative
  · rw [List.find?_cons_of_pos (by simpa using hid)] at hfirst ⊢
    exact hfirst
  · rwa [List.find?_cons_of_neg (by simpa using hid)] at hfirst

theorem exists_image_canonical (f : Table4) :
    ∃ t, Transform.all.find? (fun t => t.apply f == (canonical f).representative) = some t ∧
      Entry.image f t = canonical f := by
  have himage := find?_canonical_image f
  simpa only [List.find?_map, Option.map_eq_some_iff, Function.comp_def,
    Entry.representative_image] using himage

theorem find?_canonical (f : Table4) :
    Transform.all.find? (fun t => t.apply f == (canonical f).representative) =
      some (canonical f).transform := by
  obtain ⟨t, hfirst, hbest⟩ := exists_image_canonical f
  rw [hfirst, ← hbest, Entry.transform_image]

theorem apply_canonical (f : Table4) :
    (canonical f).transform.apply f = (canonical f).representative := by
  obtain ⟨t, _, hbest⟩ := exists_image_canonical f
  rw [← hbest, Entry.transform_image, Entry.representative_image]

theorem transform_canonical_mem (f : Table4) : (canonical f).transform ∈ Transform.all :=
  List.mem_of_find?_eq_some (find?_canonical f)

theorem unapply_canonical (f : Table4) :
    (canonical f).transform.unapply (canonical f).representative = f :=
  (Transform.isPermutation_of_mem_all (transform_canonical_mem f)).apply_eq_iff.mp
    (apply_canonical f)

theorem equivalent_canonical (f : Table4) : Equivalent f (canonical f).representative := by
  have h := Equivalent.apply (transform_canonical_mem f) f
  rwa [apply_canonical] at h

theorem canonical_le {f g : Table4} (h : Equivalent f g) :
    (canonical f).representative.toNat ≤ g.toNat := by
  obtain ⟨t, ht, rfl⟩ := h.exists_apply
  have hmem : Entry.image f t ∈ Transform.all.map (Entry.image f) := List.mem_map_of_mem ht
  exact Entry.foldl_smaller_le (Transform.all.map (Entry.image f))
    (Entry.image f Transform.identity) (Entry.image f t) (List.mem_cons_of_mem _ hmem)

theorem canonical_representative_eq_iff (f g : Table4) :
    (canonical f).representative = (canonical g).representative ↔ Equivalent f g := by
  constructor
  · intro h
    have hg := equivalent_canonical g
    rw [← h] at hg
    exact (equivalent_canonical f).trans hg.symm
  · intro h
    apply Table4.toNat_injective
    apply Nat.le_antisymm
    · exact canonical_le (h.trans (equivalent_canonical g))
    · exact canonical_le (h.symm.trans (equivalent_canonical f))

theorem canonical_representative_self (f : Table4) :
    (canonical (canonical f).representative).representative = (canonical f).representative :=
  (canonical_representative_eq_iff _ _).mpr (equivalent_canonical f).symm

theorem Transform.IsPermutation.countTrue_unapply {t : Transform} (ht : t.IsPermutation)
    (f : Table4) : (t.unapply f).countTrue = f.countTrue ∨
      (t.unapply f).countTrue = 16 - f.countTrue := by
  have hbijective := Finite.injective_iff_bijective.mp ht.canonicalRow_injective
  have hcount : ∀ b, (Finset.univ.filter fun x => f.row (t.canonicalRow x) = b).card =
      (Finset.univ.filter fun y => f.row y = b).card :=
    fun b => Finset.card_bijective t.canonicalRow hbijective (by simp)
  have hfalse : (Finset.univ.filter fun y => f.row y = false).card = 16 - f.countTrue := by
    have hsum := Finset.card_filter_add_card_filter_not (s := Finset.univ) fun y => f.row y = true
    simp only [Bool.not_eq_true, Finset.card_univ, Fintype.card_fin] at hsum
    exact Nat.eq_sub_of_add_eq' hsum
  cases houtput : t.polarity.output with
  | false =>
    left
    simpa [Table4.countTrue, row_unapply, houtput] using hcount true
  | true =>
    right
    rw [← hfalse]
    simpa [Table4.countTrue, row_unapply, houtput] using hcount false

/-- A function whose first `k` outputs are `true`, at most half of all, and whose others are not is
the smallest of its class. -/
theorem canonical_of_countTrue {f : Table4} (hf : f.toNat + 1 = 2 ^ f.countTrue)
    (hhalf : f.countTrue ≤ 8) : canonical f = ⟨f, Transform.identity⟩ := by
  have hleast : f.toNat ≤ (canonical f).representative.toNat := by
    obtain ⟨t, ht, he⟩ := equivalent_canonical f
    have hcount : f.countTrue ≤ (canonical f).representative.countTrue := by
      rcases (Transform.isPermutation_of_mem_all ht).countTrue_unapply f with h | h <;>
        rw [← he] at h <;> omega
    have hpow := Nat.pow_le_pow_right Nat.two_pos hcount
    have hbound := (canonical f).representative.two_pow_countTrue_le
    omega
  have hself : (canonical f).representative = f :=
    Table4.toNat_injective (Nat.le_antisymm (canonical_le (.refl f)) hleast)
  have hfirst := find?_canonical f
  obtain ⟨rest, hall⟩ := List.head?_eq_some_iff.mp head_all
  rw [hself, hall, List.find?_cons_of_pos] at hfirst
  · rw [← Entry.mk_eta (canonical f), hself, ← Option.some.inj hfirst]
  · have hidentity : Transform.identity.apply f = f := by
      have hback := (Transform.isPermutation_of_mem_all Transform.identity_mem_all).apply_unapply f
      rwa [Transform.unapply_identity] at hback
    simpa using hidentity

end Npn
end LogicResynthesis
