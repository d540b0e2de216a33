import Mathlib.Algebra.Group.Nat.Defs
import LogicResynthesis.Proofs.Fault
import LogicResynthesis.Proofs.Text.HexNumeral
import LogicResynthesis.TruthTable.Hex

/-!
# Reading and writing hexadecimal truth tables

A text denotes a number if, blanks around it aside, it is a numeral after at most
one mark. It is read as a table exactly if there is such a number, below `2 ^ 64`,
the inputs are at most six, and the number fits in the rows. Of several mistakes
the first of these is reported. Reading a written table gives it back.
-/

namespace LogicResynthesis

namespace Table

open Text

/-- A numeral after at most one mark. -/
inductive MarkedNumeral : List Char → Nat → Prop
  | bare {cs : List Char} {v : Nat} (h : HexNumeral cs v) : MarkedNumeral cs v
  | lower {cs : List Char} {v : Nat} (h : HexNumeral cs v) : MarkedNumeral ('0' :: 'x' :: cs) v
  | upper {cs : List Char} {v : Nat} (h : HexNumeral cs v) : MarkedNumeral ('0' :: 'X' :: cs) v

/-- A marked numeral among blanks. -/
inductive HexText : List Char → Nat → Prop
  | padded {before core after : List Char} {v : Nat} (hbefore : ∀ c ∈ before, isBlank c = true)
      (hcore : MarkedNumeral core v) (hafter : ∀ c ∈ after, isBlank c = true) :
      HexText (before ++ core ++ after) v

/-- The table over `n` inputs whose rows are the bits of `v`. -/
structure HasColumn (t : Table) (n v : Nat) : Prop where
  inputs : t.inputs = n
  rows : t.rows = 2 ^ n
  row : ∀ i < 2 ^ n, t.row i = v.testBit i
  toNat : t.toNat = v

/-- Why a text is not read as a table over `n` inputs. -/
inductive Unreadable (n : Nat) (text : String) : HexError → Prop
  | badDigits (h : ∀ v, HexText text.toList v → 2 ^ 64 ≤ v) : Unreadable n text (.badDigits text)
  | tooManyInputs {v : Nat} (h : HexText text.toList v) (hv : v < 2 ^ 64) (hn : 6 < n) :
      Unreadable n text (.tooManyInputs n)
  | tooWide {v : Nat} (h : HexText text.toList v) (hv : v < 2 ^ 64) (hn : n ≤ 6)
      (hwide : 2 ^ 2 ^ n ≤ v) : Unreadable n text (.tooWide v n)

variable {cs : List Char} {text : String} {v n : Nat} {t u : Table}

section Texts

theorem dropHexMark_of_hexNumeral (h : HexNumeral cs v) : dropHexMark cs = cs := by
  have hletter : ∀ {rest : List Char}, ¬HexNumeral ('0' :: 'x' :: rest) v ∧
      ¬HexNumeral ('0' :: 'X' :: rest) v := by
    intro rest
    constructor <;> intro h <;> cases h with
    | plain _ h =>
      obtain ⟨d, hd⟩ := h.isHexDigit _ (List.mem_cons_of_mem _ List.mem_cons_self)
      exact not_isHexDigit rfl hd
  unfold dropHexMark
  split
  · exact absurd h hletter.1
  · exact absurd h hletter.2
  · rfl

theorem markedNumeral_iff : natural? 16 (dropHexMark cs) = some v ↔ MarkedNumeral cs v := by
  rw [natural?_eq_some_iff]
  constructor
  · unfold dropHexMark
    split
    · exact .lower
    · exact .upper
    · exact .bare
  · intro h
    cases h with
    | bare h => rwa [dropHexMark_of_hexNumeral h]
    | lower h => exact h
    | upper h => exact h

theorem MarkedNumeral.not_blank (h : MarkedNumeral cs v) : ∀ c ∈ cs, isBlank c = false := by
  cases h with
  | bare h => exact h.not_blank
  | lower h => simpa using ⟨by decide, by decide, h.not_blank⟩
  | upper h => simpa using ⟨by decide, by decide, h.not_blank⟩

theorem hexValue?_eq_some_iff : hexValue? cs = some v ↔ HexText cs v ∧ v < 2 ^ 64 := by
  have hbound : wordBound = 2 ^ 64 := by decide
  have hvalue : hexValue? cs = some v ↔ MarkedNumeral (trim cs) v ∧ v < 2 ^ 64 := by
    rw [← markedNumeral_iff, ← hbound]
    simp [hexValue?, bounded?]
  rw [hvalue]
  refine and_congr_left fun _ => ⟨fun h => ?_, fun h => ?_⟩
  · obtain ⟨before, after, hcs, hbefore, hafter⟩ := exists_blanks_around_trim cs
    rw [hcs]
    exact .padded hbefore h hafter
  · cases h with
    | padded hbefore hcore hafter => rwa [trim_eq_of_blanks_around hbefore hcore.not_blank hafter]

theorem ofHex_of_hexText (h : HexText text.toList v) (hv : v < 2 ^ 64) :
    ofHex n text = ofNat n v := by
  rw [ofHex, hexValue?_eq_some_iff.mpr ⟨h, hv⟩]

theorem ofHex_of_not_hexText (h : ∀ v, HexText text.toList v → 2 ^ 64 ≤ v) :
    ofHex n text = .error (.badDigits text) := by
  have hnone : hexValue? text.toList = none := by
    rw [Option.eq_none_iff_forall_ne_some]
    intro v hvalue
    obtain ⟨htext, hv⟩ := hexValue?_eq_some_iff.mp hvalue
    exact Nat.not_le.mpr hv (h v htext)
  rw [ofHex, hnone]

theorem hexText_or (text : String) :
    (∃ v, HexText text.toList v ∧ v < 2 ^ 64) ∨ ∀ v, HexText text.toList v → 2 ^ 64 ≤ v := by
  cases hvalue : hexValue? text.toList with
  | some v => exact .inl ⟨v, hexValue?_eq_some_iff.mp hvalue⟩
  | none =>
    right
    intro v htext
    by_contra hv
    have hsome := hexValue?_eq_some_iff.mpr ⟨htext, Nat.not_le.mp hv⟩
    simp [hvalue] at hsome

end Texts

section Columns

theorem hasColumn (t : Table) : t.HasColumn t.inputs t.toNat where
  inputs := rfl
  rows := rfl
  row _ _ := (BitVec.testBit_toNat t.bits).symm
  toNat := rfl

theorem HasColumn.eq (ht : t.HasColumn n v) (hu : u.HasColumn n v) : t = u := by
  obtain ⟨m, bits, hm⟩ := t
  obtain ⟨k, bits', hk⟩ := u
  obtain rfl : m = n := ht.inputs
  obtain rfl : k = m := hu.inputs
  obtain rfl : bits = bits' := BitVec.eq_of_toNat_eq (ht.toNat.trans hu.toNat.symm)
  rfl

theorem HasColumn.lt (h : t.HasColumn n v) : v < 2 ^ 2 ^ n := by
  rw [← h.toNat, ← h.inputs]
  exact t.bits.isLt

theorem toNat_lt (t : Table) : t.toNat < 2 ^ 64 := by
  have hrows : 2 ^ t.inputs ≤ 2 ^ 6 := Nat.pow_le_pow_right (by decide) t.inputs_le
  exact Nat.lt_of_lt_of_le t.hasColumn.lt (Nat.pow_le_pow_right (by decide) hrows)

theorem ofNat_eq_ok_iff : ofNat n v = .ok t ↔ n ≤ 6 ∧ t.HasColumn n v := by
  unfold ofNat
  split_ifs with hn hv
  · have hcolumn : HasColumn ⟨n, BitVec.ofNat _ v, hn⟩ n v := by
      have hnat : (BitVec.ofNat (rowCount n) v).toNat = v := Nat.mod_eq_of_lt hv
      have hself := hasColumn ⟨n, BitVec.ofNat _ v, hn⟩
      rwa [toNat, hnat] at hself
    constructor
    · intro h
      obtain rfl := Except.ok.inj h
      exact ⟨hn, hcolumn⟩
    · rintro ⟨-, ht⟩
      rw [hcolumn.eq ht]
  · simpa [hn] using fun ht : t.HasColumn n v => hv ht.lt
  · simp [hn]

theorem ofNat_eq_error_iff {e : HexError} :
    ofNat n v = .error e ↔
      6 < n ∧ e = .tooManyInputs n ∨ n ≤ 6 ∧ 2 ^ 2 ^ n ≤ v ∧ e = .tooWide v n := by
  have hpow : Nat.pow 2 (rowCount n) = 2 ^ 2 ^ n := rfl
  unfold ofNat
  split_ifs with hn hv
  · rw [hpow] at hv
    simp [Nat.not_lt.mpr hn, Nat.not_le.mpr hv]
  · rw [hpow, Nat.not_lt] at hv
    simp [Nat.not_lt.mpr hn, hn, hv, eq_comm]
  · simp [Nat.not_le.mp hn, hn, eq_comm]

end Columns

section Results

theorem ofHex_eq_ok_iff :
    ofHex n text = .ok t ↔
      n ≤ 6 ∧ ∃ v, HexText text.toList v ∧ v < 2 ^ 64 ∧ v < 2 ^ 2 ^ n ∧ t.HasColumn n v := by
  constructor
  · intro hread
    rcases hexText_or text with ⟨v, htext, hv⟩ | hnone
    · rw [ofHex_of_hexText htext hv, ofNat_eq_ok_iff] at hread
      exact ⟨hread.1, v, htext, hv, hread.2.lt, hread.2⟩
    · simp [ofHex_of_not_hexText hnone] at hread
  · rintro ⟨hn, v, htext, hv, -, ht⟩
    rw [ofHex_of_hexText htext hv]
    exact ofNat_eq_ok_iff.mpr ⟨hn, ht⟩

theorem ofHex_eq_error_iff {e : HexError} : ofHex n text = .error e ↔ Unreadable n text e := by
  constructor
  · intro hread
    rcases hexText_or text with ⟨v, htext, hv⟩ | hnone
    · rw [ofHex_of_hexText htext hv, ofNat_eq_error_iff] at hread
      rcases hread with ⟨hn, rfl⟩ | ⟨hn, hwide, rfl⟩
      · exact .tooManyInputs htext hv hn
      · exact .tooWide htext hv hn hwide
    · rw [ofHex_of_not_hexText hnone] at hread
      obtain rfl := Except.error.inj hread
      exact .badDigits hnone
  · intro h
    cases h with
    | badDigits hnone => exact ofHex_of_not_hexText hnone
    | tooManyInputs htext hv hn =>
      rw [ofHex_of_hexText htext hv]
      exact ofNat_eq_error_iff.mpr (.inl ⟨hn, rfl⟩)
    | tooWide htext hv hn hwide =>
      rw [ofHex_of_hexText htext hv]
      exact ofNat_eq_error_iff.mpr (.inr ⟨hn, hwide, rfl⟩)

theorem hexText_toHex (t : Table) : HexText t.toHex.toList t.toNat := by
  obtain ⟨hne, hdigits⟩ := digits?_eq_some_iff.mp
    (digits?_padZeros_hexDigits (max 1 (t.rows / 4)) t.toNat)
  have hmarked := MarkedNumeral.lower (.plain hne hdigits)
  have hnil : ∀ c ∈ ([] : List Char), isBlank c = true := by simp
  simpa [toHex] using HexText.padded hnil hmarked hnil

theorem ofHex_toHex (t : Table) : ofHex t.inputs t.toHex = .ok t :=
  ofHex_eq_ok_iff.mpr
    ⟨t.inputs_le, t.toNat, t.hexText_toHex, t.toNat_lt, t.hasColumn.lt, t.hasColumn⟩

theorem table4_ofHex_toHex (f : Table4) : Table4.ofHex f.toHex = .ok f := by
  have hread : ofHex 4 f.toHex = .ok (ofTable4 f) := by
    rw [← Table4.toHex_ofTable4]
    exact ofHex_toHex (ofTable4 f)
  have hback : Table4.ofNat (ofTable4 f).toNat = f := f.ofNat_toNat
  rw [Table4.ofHex, hread, Except.map, hback]

end Results

/-- A text is read as a table exactly if it denotes a number that fits, any other text is refused for
the first thing that is wrong with it, and what is written is read again. -/
theorem ofHex_exact :
    (∀ n text t, ofHex n text = .ok t ↔
      n ≤ 6 ∧ ∃ v, HexText text.toList v ∧ v < 2 ^ 64 ∧ v < 2 ^ 2 ^ n ∧ t.HasColumn n v) ∧
    (∀ n text e, ofHex n text = .error e ↔ Unreadable n text e) ∧
    (∀ t : Table, ofHex t.inputs t.toHex = .ok t) ∧
    ∀ f : Table4, Table4.ofHex f.toHex = .ok f :=
  ⟨fun _ _ _ => ofHex_eq_ok_iff, fun _ _ _ => ofHex_eq_error_iff, ofHex_toHex, table4_ofHex_toHex⟩

end Table
end LogicResynthesis
