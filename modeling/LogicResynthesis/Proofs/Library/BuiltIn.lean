import LogicResynthesis.Proofs.Resynthesis.Engine

/-!
# The built-in library decodes

The literals of every gate of the built-in library name nodes that come before the
gate, so there is an engine over it.
-/

namespace LogicResynthesis

namespace BuiltIn

/-- Whether the literals of each pair name nodes before it, the first pair being node `n`. -/
def descends : Nat → List (Nat × Nat) → Bool
  | _, [] => true
  | n, p :: rest => (p.1 / 2).blt n && ((p.2 / 2).blt n && descends (n + 1) rest)

def literals (pairs : List (Nat × Nat)) : List UInt32 :=
  pairs.flatMap fun p => [UInt32.ofNat p.1, UInt32.ofNat p.2]

theorem length_literals (pairs : List (Nat × Nat)) :
    (literals pairs).length = 2 * pairs.length := by
  induction pairs with
  | nil => rfl
  | cons p rest ih =>
    rw [literals, List.flatMap_cons, List.length_append, ← literals, ih, List.length_cons]
    simp only [List.length_cons, List.length_nil]
    omega

theorem node_ofNat_le (n : Nat) : Literal.node (UInt32.ofNat n) ≤ n / 2 := by
  have hword : (UInt32.ofNat n).toNat = n % 2 ^ 32 := rfl
  rw [Literal.node, hword]
  exact Nat.div_le_div_right (Nat.mod_le _ _)

theorem check_literals {defined : Nat → Nat} {position n : Nat} {pairs : List (Nat × Nat)}
    (hdefined : ∀ i, i < 2 * pairs.length → defined (position + i) = n + i / 2)
    (h : descends n pairs = true) : IndexList.check defined position (literals pairs) = .ok () := by
  induction pairs generalizing position n with
  | nil => rfl
  | cons p rest ih =>
    rw [List.length_cons] at hdefined
    simp only [descends, Bool.and_eq_true, Nat.blt_eq] at h
    obtain ⟨hfirst, hsecond, hrest⟩ := h
    have hhere : defined position = n := hdefined 0 (by omega)
    have hnext : defined (position + 1) = n := hdefined 1 (by omega)
    have hcons : literals (p :: rest) =
        UInt32.ofNat p.1 :: UInt32.ofNat p.2 :: literals rest := rfl
    rw [hcons, IndexList.check_cons_of_lt, IndexList.check_cons_of_lt]
    · refine ih (fun i hi => ?_) hrest
      have hlater := hdefined (2 + i) (by omega)
      have hshift : position + 1 + 1 + i = position + (2 + i) := by omega
      rw [hshift, hlater]
      omega
    · rw [hnext]
      exact Nat.lt_of_le_of_lt (node_ofNat_le _) hsecond
    · rw [hhere]
      exact Nat.lt_of_le_of_lt (node_ofNat_le _) hfirst

theorem length_gates : gates.length = 1780 := by decide +kernel

theorem descends_gates : descends 5 gates = true := by decide +kernel

def header : UInt32 := UInt32.ofNat (1780 * 65536 + 4)

theorem accepted_words : IndexList.Accepted words header := by
  have hwords : words = header :: literals gates := rfl
  have hgates : Header.gates header = 1780 := by decide
  have hinputs : Header.inputs header = 4 := by decide
  have houtputs : Header.outputs header = 0 := by decide
  refine IndexList.accepted_iff.mpr ⟨⟨rfl, ?_⟩, ?_⟩
  · rw [hwords, List.length_cons, length_literals, length_gates, Header.words, hgates, houtputs]
  · refine check_literals (fun i hi => ?_) descends_gates
    rw [length_gates] at hi
    rw [Header.defined, hgates, hinputs]
    omega

end BuiltIn

/-- There is an engine over the built-in library. -/
theorem Engine.exists_builtIn (verbose : Bool) : ∃ e, builtIn verbose = .ok e :=
  ofWords_of_accepted verbose BuiltIn.accepted_words (by decide)

end LogicResynthesis
