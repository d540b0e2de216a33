import LogicResynthesis.Proofs.IndexList.Acceptance
import LogicResynthesis.Proofs.Library.Coverage

/-!
# Engines from words

An engine is made of every list that decodes over four inputs. Its library is a
well-formed graph, indexed by the functions of its nodes. Other words are refused
for their number, for the number of inputs or for the first undefined literal, in
this order.
-/

namespace LogicResynthesis
namespace Engine

/-- The library is well-formed and over four inputs, and the index is that of the library. -/
structure WellFormed (e : Engine) : Prop where
  library : e.library.WellFormed
  inputs : e.library.inputs.size = 4
  index : ClassIndex.ofXag? .standard e.library = .ok e.index

theorem of_ofWords {verbose : Bool} {words : List UInt32} {e : Engine}
    (h : ofWords verbose words = .ok e) :
    ∃ l signals, IndexList.ofWords words = .ok l ∧ l.inputs = libraryInputs ∧
      l.decodeInto Xag.empty = (.ok signals, e.library) ∧
      ClassIndex.ofXag? .standard e.library = .ok e.index := by
  unfold ofWords at h
  cases hlist : IndexList.ofWords words with
  | error cause =>
    rw [hlist] at h
    cases h
  | ok l =>
    rw [hlist] at h
    dsimp only at h
    split_ifs at h with hinputs
    cases hdecode : l.decodeInto Xag.empty with
    | mk result library =>
      rw [hdecode] at h
      cases result with
      | error cause => cases h
      | ok signals =>
        dsimp only at h
        cases hindex : ClassIndex.ofXag? .standard library with
        | error f =>
          rw [hindex] at h
          cases h
        | ok index =>
          rw [hindex] at h
          obtain rfl := Except.ok.inj h
          exact ⟨l, signals, rfl, Decidable.not_not.mp hinputs, hdecode, hindex⟩

theorem wellFormed_of_ofWords {verbose : Bool} {words : List UInt32} {e : Engine}
    (h : ofWords verbose words = .ok e) : e.WellFormed := by
  obtain ⟨l, signals, -, hinputs, hdecode, hindex⟩ := of_ofWords h
  obtain ⟨hreachable, hsize⟩ := IndexList.reachable_decodeInto .empty l
  rw [hdecode] at hreachable hsize
  constructor
  · exact hreachable.wellFormed
  · rw [hsize, hinputs]
    rfl
  · exact hindex

section OfWords

variable (verbose : Bool) {words : List UInt32} {l : IndexList} {signals : Array Signal}
  {library : Xag} (hwords : IndexList.ofWords words = .ok l) (hinputs : l.inputs = libraryInputs)
  (hdecode : l.decodeInto Xag.empty = (.ok signals, library))

include hwords hinputs hdecode

theorem ofWords_eq {index : ClassIndex}
    (hindex : ClassIndex.ofXag? .standard library = .ok index) :
    ofWords verbose words = .ok ⟨library, index, verbose⟩ := by
  unfold ofWords
  rw [hwords]
  dsimp only
  rw [if_neg (not_not.mpr hinputs), hdecode]
  dsimp only
  rw [hindex]

theorem ofWords_ok : ∃ e, ofWords verbose words = .ok e := by
  obtain ⟨hreachable, -⟩ := IndexList.reachable_decodeInto .empty l
  rw [hdecode] at hreachable
  obtain ⟨-, index, -, hindex, -⟩ := ClassIndex.exists_exact hreachable.wellFormed
  exact ⟨_, ofWords_eq verbose hwords hinputs hdecode hindex⟩

end OfWords

theorem exists_ofWords_one_gate : ∃ e, ofWords false [65796, 7, 9, 10] = .ok e :=
  ofWords_ok false (l := ⟨4, [(7, 9)], [10], by decide, by decide, by decide⟩) rfl rfl rfl

section TwoCircuits

open ClassIndex (twoCircuits nor)

/-- The engine over the library of two circuits of one class. -/
def ofTwoCircuits (index : ClassIndex) : Engine :=
  ⟨(twoCircuits.decodeInto Xag.empty).2, index, false⟩

/-- Leaves with which `nor` is the conjunction of `x` and `¬y`. -/
def twoLeaves : List Signal := [⟨1, false⟩, ⟨2, false⟩, ⟨1, true⟩, ⟨2, false⟩]

theorem exists_ofWords_two_circuits :
    ∃ index, ofWords false twoCircuits.toWords = .ok (ofTwoCircuits index) ∧
      index.get? nor = some [⟨5, false⟩, ⟨8, true⟩] := by
  obtain ⟨tables, index, htables, hindex, hexact⟩ :=
    ClassIndex.exists_exact ClassIndex.reachable_twoCircuits.wellFormed
  obtain rfl := Except.ok.inj (htables.symm.trans ClassIndex.tables_twoCircuits)
  have hwords : IndexList.ofWords twoCircuits.toWords = .ok twoCircuits := rfl
  obtain ⟨signals, hdecode⟩ : ∃ signals, twoCircuits.decodeInto Xag.empty =
      (.ok signals, (twoCircuits.decodeInto Xag.empty).2) := ⟨_, rfl⟩
  exact ⟨index, ofWords_eq false hwords rfl hdecode hindex, hexact.get?_nor⟩

end TwoCircuits

/-- Why words make no engine. The number of inputs is checked after that of the words and before
any literal. -/
inductive Refused (words : List UInt32) : EngineError → Prop
  | misshapen {e : DecodeError} (misshapen : IndexList.Misshapen words e) :
      Refused words (.decode e)
  | inputCount {h : UInt32} (shaped : IndexList.Shaped words h) (inputs : Header.inputs h ≠ 4) :
      Refused words (.inputCount (Header.inputs h))
  | undefined {h : UInt32} {e : DecodeError} (inputs : Header.inputs h = 4)
      (undefined : IndexList.Undefined words h e) : Refused words (.decode e)

section Refusal

variable {h : UInt32} {words : List UInt32}

theorem refused_or_accepted (words : List UInt32) :
    (∃ e, Refused words e) ∨ ∃ h, IndexList.Accepted words h ∧ Header.inputs h = 4 := by
  rcases IndexList.misshapen_or_shaped words with ⟨e, he⟩ | ⟨h, hs⟩
  · exact .inl ⟨_, .misshapen he⟩
  · by_cases hinputs : Header.inputs h = 4
    · rcases hs.undefined_or_accepted with ⟨e, he⟩ | ha
      · exact .inl ⟨_, .undefined hinputs he⟩
      · exact .inr ⟨h, ha, hinputs⟩
    · exact .inl ⟨_, .inputCount hs hinputs⟩

theorem ofWords_of_accepted (verbose : Bool) (ha : IndexList.Accepted words h)
    (hinputs : Header.inputs h = 4) : ∃ e, ofWords verbose words = .ok e := by
  obtain ⟨l, hl, hlinputs, -⟩ := ha.toShaped.ofWords_eq
  obtain ⟨signals, hdecode⟩ := ha.decodeWords_eq Xag.empty
  rw [IndexList.decodeWords_eq hl] at hdecode
  exact ofWords_ok verbose hl (hlinputs.trans hinputs) (Prod.ext hdecode rfl)

theorem Refused.ofWords_eq {e : EngineError} (he : Refused words e) (verbose : Bool) :
    ofWords verbose words = .error e := by
  unfold ofWords
  cases he with
  | misshapen he => rw [he.ofWords_eq]
  | inputCount hs hinputs =>
    obtain ⟨l, hl, hlinputs, -⟩ := hs.ofWords_eq
    rw [hl, ← hlinputs]
    exact if_pos (hlinputs ▸ hinputs)
  | undefined hinputs he =>
    obtain ⟨hs, -⟩ := IndexList.undefined_iff.mp he
    obtain ⟨l, hl, hlinputs, -⟩ := hs.ofWords_eq
    have hfour : ¬l.inputs ≠ libraryInputs := not_not.mpr (hlinputs.trans hinputs)
    have hdecode := he.decodeWords_eq Xag.empty
    rw [IndexList.decodeWords_eq hl] at hdecode
    rw [hl]
    dsimp only
    rw [if_neg hfour]
    cases hlibrary : l.decodeInto Xag.empty with
    | mk result library =>
      rw [hlibrary] at hdecode
      obtain rfl : result = .error _ := hdecode
      rfl

/-- Just the accepted words are decoded inside a graph, and just those over four inputs make an
engine. Any others are answered with the one error that they are rejected or refused for. -/
theorem acceptance_exact (words : List UInt32) (g : Xag) (verbose : Bool) :
    ((∃ signals, IndexList.decodeWords words g = .ok signals) ↔
        ∃ h, IndexList.Accepted words h) ∧
      (∀ e, IndexList.decodeWords words g = .error e ↔ IndexList.Rejected words e) ∧
      ((∃ engine, ofWords verbose words = .ok engine) ↔
        ∃ h, IndexList.Accepted words h ∧ Header.inputs h = 4) ∧
      ∀ e, ofWords verbose words = .error e ↔ Refused words e := by
  obtain ⟨hdecoded, hrejected⟩ := IndexList.decodeWords_iff words g
  obtain ⟨hmade, hrefused⟩ := ok_iff_error_iff
    (fun ⟨_, ha, hinputs⟩ => ofWords_of_accepted verbose ha hinputs)
    (fun _ he => he.ofWords_eq verbose) (refused_or_accepted words)
  exact ⟨hdecoded, hrejected, hmade, hrefused⟩

/-- Three inputs are reported, not the undefined literals. -/
example : ofWords false [65795, 99, 98, 97] = .error (.inputCount 3) := rfl

end Refusal

end Engine
end LogicResynthesis
