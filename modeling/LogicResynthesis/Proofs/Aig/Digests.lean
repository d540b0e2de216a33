import LogicResynthesis.Proofs.Aig.StructuralEquality

/-!
# Digests of nodes

A node can be known by a digest instead of a class number. The message of a gate
holds the digests of its operands, complemented where the operand is, in order
of their bytes. If the hash function has no collisions on the messages of a node
list, then digests decide structural equality as well.
-/

namespace LogicResynthesis
namespace Aig

abbrev Digest := Vector UInt8 32

namespace Digest

/-- Complementing a digest changes the lowest bit of its first byte. -/
def complement (d : Digest) : Digest := d.set 0 (d[0] ^^^ 1)

def complementIf (d : Digest) (negated : Bool) : Digest := if negated then d.complement else d

/-- The bytes of two digests, the lower one first. -/
def sorted (d e : Digest) : List UInt8 :=
  if d.toList ≤ e.toList then d.toList ++ e.toList else e.toList ++ d.toList

end Digest

/-- The lowest bytes of a number, the very lowest first. -/
def littleEndian : Nat → Nat → List UInt8
  | 0, _ => []
  | k + 1, n => UInt8.ofNat n :: littleEndian k (n / 256)

/-- The message that stands for a node under a hash function. -/
inductive Encodes (hash : List UInt8 → Digest) (nodes : Array Node) : Nat → List UInt8 → Prop
  | literal {n : Nat} {b : Bool} (hn : nodes[n]? = some (.literal b)) :
      Encodes hash nodes n [2, b.toUInt8]
  | input {n : Nat} {name : String} (hn : nodes[n]? = some (.input name)) :
      Encodes hash nodes n (1 :: littleEndian 8 n)
  | and {n : Nat} {a b : Signal} {u v : List UInt8} (hn : nodes[n]? = some (.and a b))
      (ha : Encodes hash nodes a.node u) (hb : Encodes hash nodes b.node v) :
      Encodes hash nodes n
        (0 :: Digest.sorted ((hash u).complementIf a.negated) ((hash v).complementIf b.negated))

/-- Different messages of nodes have different digests, and none is the complement of another. -/
structure CollisionFree (hash : List UInt8 → Digest) (nodes : Array Node) : Prop where
  injective : ∀ (n k : Nat) (u v : List UInt8), Encodes hash nodes n u → Encodes hash nodes k v →
    hash u = hash v → u = v
  no_complement : ∀ (n k : Nat) (u v : List UInt8), Encodes hash nodes n u →
    Encodes hash nodes k v → hash u ≠ (hash v).complement

namespace Digest

variable {d e d' e' : Digest}

@[simp] theorem complement_complement (d : Digest) : d.complement.complement = d := by
  rw [complement, complement, Vector.getElem_set_self, Vector.set_set, UInt8.xor_assoc,
    UInt8.xor_self, UInt8.xor_zero, Vector.set_getElem_self]

theorem complementIf_eq_complementIf {p q : Bool} (h : d.complementIf p = e.complementIf q) :
    d = e ∧ p = q ∨ d = e.complement := by
  cases p <;> cases q <;> simp only [complementIf, if_true, Bool.false_eq_true, if_false] at h
  · exact .inl ⟨h, rfl⟩
  · exact .inr h
  · rw [← h, complement_complement]
    exact .inr rfl
  · have hde := congrArg complement h
    rw [complement_complement, complement_complement] at hde
    exact .inl ⟨hde, rfl⟩

theorem sorted_comm (d e : Digest) : sorted d e = sorted e d := by
  unfold sorted
  by_cases hde : d.toList ≤ e.toList
  · by_cases hed : e.toList ≤ d.toList
    · rw [List.le_antisymm hde hed]
    · rw [if_pos hde, if_neg hed]
  · rw [if_neg hde, if_pos ((List.le_total d.toList e.toList).resolve_left hde)]

theorem append_inj (h : d.toList ++ e.toList = d'.toList ++ e'.toList) : d = d' ∧ e = e' := by
  obtain ⟨hd, he⟩ := List.append_inj h (by simp)
  exact ⟨Vector.toList_inj.mp hd, Vector.toList_inj.mp he⟩

theorem sorted_inj (h : sorted d e = sorted d' e') : d = d' ∧ e = e' ∨ d = e' ∧ e = d' := by
  unfold sorted at h
  split_ifs at h
  · exact .inl (append_inj h)
  · exact .inr (append_inj h)
  · exact .inr (append_inj h).symm
  · exact .inl (append_inj h).symm

end Digest

theorem littleEndian_inj {k n m : Nat} (hn : n < 256 ^ k) (hm : m < 256 ^ k)
    (h : littleEndian k n = littleEndian k m) : n = m := by
  induction k generalizing n m with
  | zero => omega
  | succ k ih =>
    obtain ⟨hlow, hhigh⟩ := List.cons.inj h
    rw [Nat.pow_succ] at hn hm
    have hdiv := ih (Nat.div_lt_of_lt_mul (by omega)) (Nat.div_lt_of_lt_mul (by omega)) hhigh
    have hmod := congrArg UInt8.toNat hlow
    rw [UInt8.toNat_ofNat', UInt8.toNat_ofNat'] at hmod
    omega

theorem toUInt8_inj {b c : Bool} (h : b.toUInt8 = c.toUInt8) : b = c := by
  revert b c
  decide

namespace Encodes

variable {hash : List UInt8 → Digest} {nodes : Array Node} {n k : Nat}
  {u v : List UInt8}

theorem exists_of_hasDepth (hash : List UInt8 → Digest) {d : Nat} (h : HasDepth nodes n d) :
    ∃ u, Encodes hash nodes n u := by
  induction h with
  | literal hn => exact ⟨_, .literal hn⟩
  | input hn => exact ⟨_, .input hn⟩
  | and hn _ _ iha ihb =>
    obtain ⟨u, hu⟩ := iha
    obtain ⟨v, hv⟩ := ihb
    exact ⟨_, .and hn hu hv⟩

theorem literal_iff {b : Bool} (hn : nodes[n]? = some (.literal b)) :
    Encodes hash nodes n u ↔ u = [2, b.toUInt8] := by
  constructor
  · intro h
    cases h <;> simp_all
  · rintro rfl
    exact .literal hn

theorem input_iff {name : String} (hn : nodes[n]? = some (.input name)) :
    Encodes hash nodes n u ↔ u = 1 :: littleEndian 8 n := by
  constructor
  · intro h
    cases h <;> simp_all
  · rintro rfl
    exact .input hn

theorem and_iff {a b : Signal} (hn : nodes[n]? = some (.and a b)) :
    Encodes hash nodes n u ↔ ∃ v w, Encodes hash nodes a.node v ∧ Encodes hash nodes b.node w ∧
      u = 0 :: Digest.sorted ((hash v).complementIf a.negated)
        ((hash w).complementIf b.negated) := by
  constructor
  · intro h
    cases h with
    | literal hn' => simp [hn] at hn'
    | input hn' => simp [hn] at hn'
    | and hn' ha hb =>
      obtain ⟨rfl, rfl⟩ := Node.and.inj (Option.some.inj (hn.symm.trans hn'))
      exact ⟨_, _, ha, hb, rfl⟩
  · rintro ⟨v, w, ha, hb, rfl⟩
    exact .and hn ha hb

theorem of_grown {nodes' : Array Node} (hgrown : nodes.toList <+: nodes'.toList)
    (h : Encodes hash nodes n u) : Encodes hash nodes' n u := by
  induction h with
  | literal hn => exact .literal (getElem?_of_grown hgrown hn)
  | input hn => exact .input (getElem?_of_grown hgrown hn)
  | and hn _ _ iha ihb => exact .and (getElem?_of_grown hgrown hn) iha ihb

theorem eq_of_sameStructure (hsame : SameStructure nodes n k) (hu : Encodes hash nodes n u)
    (hv : Encodes hash nodes k v) : u = v := by
  induction hsame generalizing u v with
  | literal hn hk => rw [(literal_iff hn).mp hu, (literal_iff hk).mp hv]
  | input hn => rw [(input_iff hn).mp hu, (input_iff hn).mp hv]
  | and hn hk _ hac' _ hbd' hac hbd =>
    obtain ⟨ua, ub, hua, hub, rfl⟩ := (and_iff hn).mp hu
    obtain ⟨va, vb, hva, hvb, rfl⟩ := (and_iff hk).mp hv
    rw [hac hua hva, hbd hub hvb, hac', hbd']
  | swapped hn hk _ had' _ hbc' had hbc =>
    obtain ⟨ua, ub, hua, hub, rfl⟩ := (and_iff hn).mp hu
    obtain ⟨va, vb, hva, hvb, rfl⟩ := (and_iff hk).mp hv
    rw [had hua hvb, hbc hub hva, had', hbc', Digest.sorted_comm]

theorem operand_eq (hfree : CollisionFree hash nodes) (hu : Encodes hash nodes n u)
    (hv : Encodes hash nodes k v) {p q : Bool}
    (h : (hash u).complementIf p = (hash v).complementIf q) : u = v ∧ p = q := by
  rcases Digest.complementIf_eq_complementIf h with ⟨hdigest, hpq⟩ | htwin
  · exact ⟨hfree.injective n k u v hu hv hdigest, hpq⟩
  · exact absurd htwin (hfree.no_complement n k u v hu hv)

theorem sameStructure (hfree : CollisionFree hash nodes) (hsize : nodes.size ≤ 2 ^ 64)
    (hu : Encodes hash nodes n u) (hv : Encodes hash nodes k v) (huv : u = v) :
    SameStructure nodes n k := by
  induction hu generalizing k v with
  | literal hn =>
    cases hv with
    | literal hk =>
      obtain rfl := toUInt8_inj (List.cons.inj (List.cons.inj huv).2).1
      exact .literal hn hk
    | input hk => simp at huv
    | and hk _ _ => simp at huv
  | input hn =>
    cases hv with
    | literal hk => simp at huv
    | input hk =>
      have hlt : ∀ {m : Nat} {name : String}, nodes[m]? = some (.input name) → m < 256 ^ 8 :=
        fun hm => Nat.lt_of_lt_of_le (Array.getElem?_eq_some_iff.mp hm).1 hsize
      obtain rfl := littleEndian_inj (hlt hn) (hlt hk) (List.cons.inj huv).2
      exact .input hn
    | and hk _ _ => simp at huv
  | and hn ha hb iha ihb =>
    cases hv with
    | literal hk => simp at huv
    | input hk => simp at huv
    | and hk hc hd =>
      rcases Digest.sorted_inj (List.cons.inj huv).2 with ⟨hac, hbd⟩ | ⟨had, hbc⟩
      · obtain ⟨hac, hac'⟩ := operand_eq hfree ha hc hac
        obtain ⟨hbd, hbd'⟩ := operand_eq hfree hb hd hbd
        exact .and hn hk (iha hc hac) hac' (ihb hd hbd) hbd'
      · obtain ⟨had, had'⟩ := operand_eq hfree ha hd had
        obtain ⟨hbc, hbc'⟩ := operand_eq hfree hb hc hbc
        exact .swapped hn hk (iha hd had) had' (ihb hc hbc) hbc'

end Encodes

theorem CollisionFree.of_grown {hash : List UInt8 → Digest} {nodes nodes' : Array Node}
    (h : CollisionFree hash nodes') (hgrown : nodes.toList <+: nodes'.toList) :
    CollisionFree hash nodes where
  injective n k u v hu hv := h.injective n k u v (hu.of_grown hgrown) (hv.of_grown hgrown)
  no_complement n k u v hu hv := h.no_complement n k u v (hu.of_grown hgrown) (hv.of_grown hgrown)

/-- Equal digests are those of structurally equal nodes. -/
theorem digest_eq_iff {hash : List UInt8 → Digest} {nodes : Array Node}
    (hfree : CollisionFree hash nodes) (hsize : nodes.size ≤ 2 ^ 64) {n k : Nat}
    {u v : List UInt8} (hu : Encodes hash nodes n u) (hv : Encodes hash nodes k v) :
    hash u = hash v ↔ SameStructure nodes n k := by
  constructor
  · intro h
    exact hu.sameStructure hfree hsize hv (hfree.injective n k u v hu hv h)
  · intro hsame
    rw [Encodes.eq_of_sameStructure hsame hu hv]

end Aig
end LogicResynthesis
