import Mathlib.Data.List.Induction
import Mathlib.Data.List.TakeWhile
import Mathlib.Tactic.SplitIfs
import LogicResynthesis.Text.Blank
import LogicResynthesis.Text.Numeral

/-!
# Hexadecimal numerals

A numeral is a run of digits, the most significant first and in either case, after
an optional plus sign. The reader takes numerals and nothing else. What is left of a
text without the blanks around it is known as soon as it has no blank itself.
-/

namespace LogicResynthesis.Text

/-- The character is the digit for `d`. -/
def IsHexDigit (c : Char) (d : Nat) : Prop :=
  "0123456789abcdef".toList[d]? = some c ∨ "0123456789ABCDEF".toList[d]? = some c

/-- A run of digits, and the number that it denotes. -/
inductive HexDigits : List Char → Nat → Prop
  | nil : HexDigits [] 0
  | concat {cs : List Char} {c : Char} {v d : Nat} (h : HexDigits cs v) (hc : IsHexDigit c d) :
      HexDigits (cs ++ [c]) (16 * v + d)

/-- At least one digit, after at most one plus sign. -/
inductive HexNumeral : List Char → Nat → Prop
  | plain {cs : List Char} {v : Nat} (hne : cs ≠ []) (h : HexDigits cs v) : HexNumeral cs v
  | plus {cs : List Char} {v : Nat} (hne : cs ≠ []) (h : HexDigits cs v) :
      HexNumeral ('+' :: cs) v

variable {c : Char} {cs : List Char} {d v : Nat}

section Digits

theorem IsHexDigit.exists_eq_getElem (h : IsHexDigit c d) :
    ∃ i : Fin 16, i.val = d ∧
      (c = "0123456789abcdef".toList[i] ∨ c = "0123456789ABCDEF".toList[i]) := by
  rcases h with h | h
  · obtain ⟨hd, rfl⟩ := List.getElem?_eq_some_iff.mp h
    exact ⟨⟨d, hd⟩, rfl, .inl rfl⟩
  · obtain ⟨hd, rfl⟩ := List.getElem?_eq_some_iff.mp h
    exact ⟨⟨d, hd⟩, rfl, .inr rfl⟩

theorem IsHexDigit.not_blank (h : IsHexDigit c d) : isBlank c = false := by
  have hlower : ∀ i : Fin 16, isBlank "0123456789abcdef".toList[i] = false := by decide
  have hupper : ∀ i : Fin 16, isBlank "0123456789ABCDEF".toList[i] = false := by decide
  obtain ⟨i, -, rfl | rfl⟩ := h.exists_eq_getElem
  · exact hlower i
  · exact hupper i

theorem IsHexDigit.digitOf?_eq (h : IsHexDigit c d) : digitOf? 16 c = some d := by
  have hlower : ∀ i : Fin 16, digitOf? 16 "0123456789abcdef".toList[i] = some i.val := by decide
  have hupper : ∀ i : Fin 16, digitOf? 16 "0123456789ABCDEF".toList[i] = some i.val := by decide
  obtain ⟨i, rfl, rfl | rfl⟩ := h.exists_eq_getElem
  · exact hlower i
  · exact hupper i

theorem not_isHexDigit (h : digitOf? 16 c = none) : ¬IsHexDigit c d := by
  intro hc
  simp [hc.digitOf?_eq] at h

theorem le_iff_toNat_le {a b : Char} : a ≤ b ↔ a.toNat ≤ b.toNat :=
  Char.le_def.trans UInt32.le_iff_toNat_le

theorem isHexDigit_of_digitOf? (h : digitOf? 16 c = some d) : IsHexDigit c d := by
  have hdecimal : ∀ d < 10, IsHexDigit (Char.ofNat (48 + d)) d := by unfold IsHexDigit; decide
  have hlower : ∀ d < 6, IsHexDigit (Char.ofNat (97 + d)) (10 + d) := by unfold IsHexDigit; decide
  have hupper : ∀ d < 6, IsHexDigit (Char.ofNat (65 + d)) (10 + d) := by unfold IsHexDigit; decide
  obtain ⟨hvalue, hd⟩ : digitValue? c = some d ∧ d < 16 := by simpa [digitOf?] using h
  unfold digitValue? at hvalue
  simp only [le_iff_toNat_le, Char.reduceToNat] at hvalue
  rw [← Char.ofNat_toNat c]
  split_ifs at hvalue with h0 ha hA <;> obtain rfl := Option.some.inj hvalue
  · obtain ⟨k, hk⟩ := Nat.exists_eq_add_of_le h0.1
    rw [hk, Nat.add_sub_cancel_left]
    exact hdecimal k (by omega)
  · obtain ⟨k, hk⟩ := Nat.exists_eq_add_of_le ha.1
    rw [hk, Nat.add_sub_cancel_left, Nat.add_comm k]
    exact hlower k (by omega)
  · obtain ⟨k, hk⟩ := Nat.exists_eq_add_of_le hA.1
    rw [hk, Nat.add_sub_cancel_left, Nat.add_comm k]
    exact hupper k (by omega)

theorem digitOf?_eq_some_iff : digitOf? 16 c = some d ↔ IsHexDigit c d :=
  ⟨isHexDigit_of_digitOf?, IsHexDigit.digitOf?_eq⟩

end Digits

section Numerals

theorem HexDigits.isHexDigit (h : HexDigits cs v) : ∀ c ∈ cs, ∃ d, IsHexDigit c d := by
  induction h with
  | nil => simp
  | concat _ hc ih =>
    intro c hmem
    rcases List.mem_append.mp hmem with hmem | hmem
    · exact ih c hmem
    · rw [List.mem_singleton.mp hmem]
      exact ⟨_, hc⟩

theorem hexDigits_nil_iff : HexDigits [] v ↔ v = 0 := by
  constructor
  · generalize hcs : ([] : List Char) = all
    intro h
    cases h with
    | nil => rfl
    | concat _ _ => simp at hcs
  · rintro rfl
    exact .nil

theorem hexDigits_concat_iff :
    HexDigits (cs ++ [c]) v ↔ ∃ u, HexDigits cs u ∧ ∃ d, IsHexDigit c d ∧ 16 * u + d = v := by
  constructor
  · generalize hcs : cs ++ [c] = all
    intro h
    cases h with
    | nil => simp at hcs
    | concat h hc =>
      obtain ⟨rfl, hlast⟩ := List.append_inj' hcs rfl
      obtain rfl := List.singleton_inj.mp hlast
      exact ⟨_, h, _, hc, rfl⟩
  · rintro ⟨u, h, d, hc, rfl⟩
    exact .concat h hc

theorem foldlM_shiftIn_eq_some_iff :
    cs.foldlM (shiftIn 16) 0 = some v ↔ HexDigits cs v := by
  induction cs using List.reverseRecOn generalizing v with
  | nil => simp [hexDigits_nil_iff, eq_comm]
  | append_singleton cs c ih =>
    simp [List.foldlM_append, Option.bind_eq_some_iff, ih, shiftIn, digitOf?_eq_some_iff,
      hexDigits_concat_iff]

theorem digits?_eq_some_iff : digits? 16 cs = some v ↔ cs ≠ [] ∧ HexDigits cs v := by
  by_cases hne : cs = []
  · simp [hne, digits?]
  · simp [digits?_of_ne_nil hne, foldlM_shiftIn_eq_some_iff, hne]

theorem not_hexDigits_plus : ¬HexDigits ('+' :: cs) v := by
  intro h
  obtain ⟨d, hd⟩ := h.isHexDigit '+' List.mem_cons_self
  exact not_isHexDigit rfl hd

theorem natural?_eq_some_iff : natural? 16 cs = some v ↔ HexNumeral cs v := by
  unfold natural?
  split
  · next cs =>
    rw [digits?_eq_some_iff]
    constructor
    · exact fun ⟨hne, h⟩ => .plus hne h
    · intro h
      cases h with
      | plain _ h => exact absurd h not_hexDigits_plus
      | plus hne h => exact ⟨hne, h⟩
  · next hplus =>
    rw [digits?_eq_some_iff]
    constructor
    · exact fun ⟨hne, h⟩ => .plain hne h
    · intro h
      cases h with
      | plain hne h => exact ⟨hne, h⟩
      | plus _ _ => exact absurd rfl (hplus _)

theorem HexNumeral.not_blank (h : HexNumeral cs v) : ∀ c ∈ cs, isBlank c = false := by
  have hdigits : ∀ {cs v}, HexDigits cs v → ∀ c ∈ cs, isBlank c = false := by
    intro cs v h c hc
    obtain ⟨d, hd⟩ := h.isHexDigit c hc
    exact hd.not_blank
  cases h with
  | plain _ h => exact hdigits h
  | plus _ h => exact List.forall_mem_cons.mpr ⟨by decide, hdigits h⟩

end Numerals

section Blanks

theorem exists_blanks_around_trim (cs : List Char) :
    ∃ before after, cs = before ++ trim cs ++ after ∧ (∀ c ∈ before, isBlank c = true) ∧
      ∀ c ∈ after, isBlank c = true := by
  let rest := trimStart cs
  refine ⟨cs.takeWhile isBlank, (rest.reverse.takeWhile isBlank).reverse, ?_,
    fun c hc => List.mem_takeWhile_imp hc,
    fun c hc => List.mem_takeWhile_imp (List.mem_reverse.mp hc)⟩
  have hend : rest = trim cs ++ (rest.reverse.takeWhile isBlank).reverse := by
    rw [trim, trimEnd, ← List.reverse_append, List.takeWhile_append_dropWhile, List.reverse_reverse]
  rw [List.append_assoc, ← hend]
  exact List.takeWhile_append_dropWhile.symm

theorem trim_eq_of_blanks_around {before core after : List Char}
    (hbefore : ∀ c ∈ before, isBlank c = true) (hcore : ∀ c ∈ core, isBlank c = false)
    (hafter : ∀ c ∈ after, isBlank c = true) : trim (before ++ core ++ after) = core := by
  have hstart : trimStart (before ++ (core ++ after)) = trimStart (core ++ after) :=
    List.dropWhile_append_of_pos hbefore
  have hend : ∀ cs, trimEnd (cs ++ after) = trimEnd cs := by
    intro cs
    unfold trimEnd
    rw [List.reverse_append, List.dropWhile_append_of_pos fun c hc => hafter c (by simpa using hc)]
  rw [trim, List.append_assoc, hstart]
  cases core with
  | nil =>
    have hnone : trimStart after = [] := List.dropWhile_eq_nil_iff.mpr hafter
    simp [hnone, trimEnd]
  | cons c cs =>
    rw [List.cons_append, trimStart_of_head (hcore c List.mem_cons_self), ← List.cons_append, hend]
    rcases List.eq_nil_or_concat (c :: cs) with hnil | ⟨init, last, hlast⟩
    · simp at hnil
    · rw [hlast, List.concat_eq_append, trimEnd_concat (hcore last (by simp [hlast]))]

end Blanks

end LogicResynthesis.Text
