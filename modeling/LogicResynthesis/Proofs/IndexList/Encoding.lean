import LogicResynthesis.IndexList.Encoder
import LogicResynthesis.Proofs.IndexList.Meaning

/-!
# Encoding is the inverse of reading

The fields of a header can be read back, and so can the words of a list. An
encoder that is given the gates and outputs of a list in order collects just
these, since it puts the literals of a pair in the order in which they stand.
It hands out for each gate the literal of its node.
-/

namespace LogicResynthesis

namespace IndexList

theorem toNat_header {inputs gates outputs : Nat} (hinputs : inputs < 256) (hgates : gates < 65536)
    (houtputs : outputs < 256) :
    (header inputs gates outputs).toNat = gates * 65536 + outputs * 256 + inputs := by
  rw [header, UInt32.toNat_ofNat']
  omega

theorem ofWords_toWords (l : IndexList) : ofWords l.toWords = .ok l := by
  obtain ⟨inputs, gates, outputs, hinputs, hgates, houtputs⟩ := l
  have hheader := toNat_header hinputs hgates houtputs
  have hgateField : (header inputs gates.length outputs.length).toNat / 65536 = gates.length := by
    omega
  have houtputField :
      (header inputs gates.length outputs.length).toNat / 256 % 256 = outputs.length := by
    omega
  have hinputField : (header inputs gates.length outputs.length).toNat % 256 = inputs := by
    omega
  have hwords := length_unpairs gates
  unfold toWords ofWords
  dsimp only
  simp only [hgateField, houtputField, hinputField, List.length_append, hwords]
  rw [dif_neg (by omega), dif_neg (by omega)]
  simp only [Except.ok.injEq, IndexList.mk.injEq, true_and]
  constructor
  · rw [List.take_left' hwords, pairs_unpairs]
  · rw [List.drop_left' hwords]

end IndexList

namespace Encoder

theorem max_min_of_lt {a b : UInt32} (h : b < a) : max a b = a ∧ min a b = b := by
  have hle : ¬a ≤ b := UInt32.not_le.mpr h
  exact ⟨if_neg hle, if_neg hle⟩

theorem min_max_of_not_lt {a b : UInt32} (h : ¬b < a) : min a b = a ∧ max a b = b := by
  have hle : a ≤ b := UInt32.not_lt.mp h
  exact ⟨if_pos hle, if_pos hle⟩

variable (e : Encoder)

theorem toNat_nextLiteral (hgates : e.gates.size < 65536) :
    e.nextLiteral.toNat = 2 * (1 + e.inputs + e.gates.size) := by
  have hinputs := e.inputs_lt
  rw [nextLiteral, UInt32.toNat_ofNat']
  omega

/-- The encoder with some more gates. -/
def withGates (gates : List (UInt32 × UInt32)) : Encoder :=
  { e with gates := e.gates ++ gates.toArray }

/-- Adds the gate that a pair of literals encodes. -/
def addPair? (p : UInt32 × UInt32) : Except Fault (UInt32 × Encoder) :=
  if p.2 < p.1 then e.addXor? p.1 p.2 else .ok (e.addAnd p.1 p.2)

/-- Adds the gates of some pairs, and collects the literals that they are given. -/
def addPairs? : Encoder → List (UInt32 × UInt32) → Except Fault (List UInt32 × Encoder)
  | e, [] => .ok ([], e)
  | e, p :: rest => do
    let r ← e.addPair? p
    let later ← addPairs? r.2 rest
    return (r.1 :: later.1, later.2)

theorem addPair?_eq (p : UInt32 × UInt32) :
    e.addPair? p = .ok (e.nextLiteral, e.withGates [p]) := by
  unfold addPair?
  split_ifs with h
  · obtain ⟨hmax, hmin⟩ := max_min_of_lt h
    have hne : p.1 ≠ p.2 := (UInt32.ne_of_lt h).symm
    rw [addXor?, if_neg hne, hmax, hmin, withGates, Array.push_eq_append]
  · obtain ⟨hmin, hmax⟩ := min_max_of_not_lt h
    rw [addAnd, hmin, hmax, withGates, Array.push_eq_append]

theorem addPairs?_eq (gates : List (UInt32 × UInt32))
    (hgates : e.gates.size + gates.length < 65536) :
    ∃ literals, e.addPairs? gates = .ok (literals, e.withGates gates) ∧
      literals.length = gates.length ∧
      ∀ (j : Nat) (w : UInt32), literals[j]? = some w →
        w.toNat = 2 * (1 + e.inputs + e.gates.size + j) := by
  induction gates generalizing e with
  | nil => exact ⟨[], by simp [addPairs?, withGates], rfl, by simp⟩
  | cons p rest ih =>
    have hsize : (e.withGates [p]).gates.size = e.gates.size + 1 := by simp [withGates]
    rw [List.length_cons] at hgates
    obtain ⟨literals, hrun, hlength, hliterals⟩ := ih (e.withGates [p]) (by omega)
    refine ⟨e.nextLiteral :: literals, ?_, congrArg (· + 1) hlength, ?_⟩
    · have hsame : (e.withGates [p]).withGates rest = e.withGates (p :: rest) := by
        simp [withGates]
      rw [addPairs?, addPair?_eq, ← hsame]
      simp only [bind, Except.bind, hrun]
      rfl
    · intro j w hw
      cases j with
      | zero =>
        obtain rfl := Option.some.inj hw
        exact e.toNat_nextLiteral (by omega)
      | succ j =>
        rw [hliterals j w hw, hsize]
        have hinputs : (e.withGates [p]).inputs = e.inputs := rfl
        omega

theorem foldl_addOutput (outputs : List UInt32) :
    outputs.foldl addOutput e = { e with outputs := e.outputs ++ outputs.toArray } := by
  induction outputs generalizing e with
  | nil => simp
  | cons w rest ih => simp [ih, addOutput]

end Encoder

namespace IndexList

/-- Encodes a list anew, its gates first and then its outputs. Beside the new list stand the
literals that the gates were given. -/
def reencode? (l : IndexList) : Except Fault (List UInt32 × IndexList) := do
  let start ← Encoder.ofInputs? l.inputs
  let r ← start.addPairs? l.gates
  let again ← (l.outputs.foldl Encoder.addOutput r.2).build?
  return (r.1, again)

theorem reencode?_eq (l : IndexList) :
    ∃ literals, l.reencode? = .ok (literals, l) ∧ literals.length = l.gates.length ∧
      ∀ (j : Nat) (w : UInt32), literals[j]? = some w → w.toNat = 2 * (1 + l.inputs + j) := by
  obtain ⟨inputs, gates, outputs, hinputs, hgates, houtputs⟩ := l
  obtain ⟨literals, hrun, hlength, hliterals⟩ :=
    Encoder.addPairs?_eq ⟨inputs, #[], #[], hinputs⟩ gates (by simpa using hgates)
  refine ⟨literals, ?_, hlength, fun j w hw => ?_⟩
  · simp only [reencode?, Encoder.ofInputs?, dif_pos hinputs, bind, Except.bind, hrun,
      Encoder.foldl_addOutput, Encoder.build?, Encoder.withGates]
    simp [hgates, houtputs, pure, Except.pure]
  · simpa using hliterals j w hw

/-- Whatever list words are read as, encoding it anew gives these words, and each gate the literal
of the node that it is in the list. -/
theorem reencode?_restores {words : List UInt32} {l : IndexList} (h : ofWords words = .ok l) :
    ∃ literals again, l.reencode? = .ok (literals, again) ∧ again.toWords = words ∧
      literals.length = l.gates.length ∧
      ∀ (j : Nat) (w : UInt32), literals[j]? = some w → w.toNat = 2 * (1 + l.inputs + j) := by
  obtain ⟨literals, hrun, hlength, hliterals⟩ := l.reencode?_eq
  exact ⟨literals, l, hrun, toWords_of_ofWords h, hlength, hliterals⟩

/-- The most inputs, a gate over one literal, an XOR of undefined literals and an undefined
output. -/
theorem reencode?_restores_undefined :
    ofWords [131583, 9, 9, 4294967295, 3, 4294967294] =
        .ok ⟨255, [(9, 9), (4294967295, 3)], [4294967294], by decide, by decide, by decide⟩ ∧
      ∃ literals again,
        reencode? ⟨255, [(9, 9), (4294967295, 3)], [4294967294], by decide, by decide, by decide⟩ =
          .ok (literals, again) ∧
        again.toWords = [131583, 9, 9, 4294967295, 3, 4294967294] := by
  have hwords : ofWords [131583, 9, 9, 4294967295, 3, 4294967294] =
      .ok ⟨255, [(9, 9), (4294967295, 3)], [4294967294], by decide, by decide, by decide⟩ := rfl
  obtain ⟨literals, again, hrun, hagain, -⟩ := reencode?_restores hwords
  exact ⟨hwords, literals, again, hrun, hagain⟩

end IndexList
end LogicResynthesis
