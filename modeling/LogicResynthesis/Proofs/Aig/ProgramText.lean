import Mathlib.Data.Nat.Digits.Lemmas
import LogicResynthesis.Proofs.Aig.StraightLine

/-!
# Reading back what was written

A statement whose inputs have names that are told from gates and literals is read
back from its line, whatever the name of its target.
-/

namespace LogicResynthesis

namespace Text

theorem shiftIn_of_isDigit {c : Char} (h : c.isDigit = true) (acc : Nat) :
    shiftIn 10 acc c = some (10 * acc + (c.toNat - '0'.toNat)) := by
  have hbounds : 48 ≤ c.toNat ∧ c.toNat ≤ 57 := Char.isDigit_iff_toNat.mp h
  have hdigit : '0' ≤ c ∧ c ≤ '9' := hbounds
  have hten : c.toNat - 48 < 10 := by omega
  simp [shiftIn, digitOf?, digitValue?, hdigit, hten]

theorem foldlM_shiftIn {cs : List Char} (h : ∀ c ∈ cs, c.isDigit = true) (acc : Nat) :
    cs.foldlM (shiftIn 10) acc = some (Nat.ofDigitChars 10 cs acc) := by
  induction cs generalizing acc with
  | nil => rfl
  | cons c cs ih =>
    rw [List.foldlM_cons, shiftIn_of_isDigit (h c List.mem_cons_self), Option.bind_eq_bind,
      Option.bind_some, ih fun d hd => h d (List.mem_cons_of_mem _ hd)]
    rfl

theorem digits?_toDigits (n : Nat) : digits? 10 (Nat.toDigits 10 n) = some n := by
  rw [digits?_of_ne_nil Nat.toDigits_ne_nil,
    foldlM_shiftIn fun c hc => Nat.isDigit_of_mem_toDigits (by decide) (by decide) hc,
    Nat.ofDigitChars_ten_toDigits]

end Text

namespace Aig

open Text (digits?_toDigits)

/-- The inputs in an operand can be told from gates and literals. -/
def Term.Readable : Term → Prop
  | input name => IsName name
  | _ => True

def Statement.Readable (st : Statement) : Prop := ∀ x ∈ st.operands, x.term.Readable

/-- Words of letters, digits and underscores are names, the two literals excepted. -/
theorem isName_of_word {name : String} (hne : name ≠ "")
    (hliteral : name ≠ "true" ∧ name ≠ "false")
    (hword : ∀ c ∈ name.toList, c.isAlphanum = true ∨ c = '_') : IsName name := by
  have hother : ∀ c ∈ '%' :: delimiters, ¬(c.isAlphanum = true ∨ c = '_') := by
    simp [delimiters]
  refine ⟨hne, hliteral.1, hliteral.2, fun c hc => ⟨?_, fun hmem => ?_⟩⟩
  · rintro rfl
    exact hother _ List.mem_cons_self (hword _ hc)
  · exact hother c (List.mem_cons_of_mem _ hmem) (hword c hc)

theorem toList_gateText (n : Nat) : (Term.gate n).text.toList = '%' :: Nat.toDigits 10 n := by
  change ("%" ++ toString n).toList = _
  simp

namespace Term

variable {t : Term}

theorem not_mem_delimiters (h : t.Readable) : ∀ c ∈ t.text.toList, c ∉ delimiters := by
  cases t with
  | literal b => cases b <;> simp [text, Listing.literal, delimiters]
  | input name => exact fun c hc => (h.2.2.2 c hc).2
  | gate n =>
    intro c hc
    rw [toList_gateText] at hc
    rcases List.mem_cons.mp hc with rfl | hc
    · decide
    · have hdigit := Nat.isDigit_of_mem_toDigits (by decide) (by decide) hc
      have hdelimiter : ∀ d ∈ delimiters, d.isDigit = false := by simp [delimiters]
      exact fun hmem => Bool.false_ne_true ((hdelimiter c hmem).symm.trans hdigit)

theorem read?_text (h : t.Readable) : read? t.text.toList = some t := by
  cases t with
  | literal b => cases b <;> rfl
  | gate n =>
    rw [toList_gateText, read?, digits?_toDigits]
    rfl
  | input name =>
    have hname : IsName name := h
    obtain ⟨-, htrue, hfalse, hchars⟩ := hname
    have hplain : ∀ digits, name.toList ≠ '%' :: digits := by
      rintro digits heq
      exact (hchars '%' (by simp [heq])).1 rfl
    rw [text, read?]
    · simp [htrue, hfalse, show IsName name from h]
    · exact hplain

end Term

theorem inside?_append (cs : List Char) : inside? (cs ++ [')']) = some cs := by
  simp [inside?]

namespace Operand

variable {x : Operand}

theorem toList_text (x : Operand) :
    x.text.toList = if x.negated then "not(".toList ++ (x.term.text.toList ++ [')'])
      else x.term.text.toList := by
  obtain ⟨t, negated⟩ := x
  cases negated with
  | false => rfl
  | true =>
    change ("not(" ++ t.text ++ ")").toList = _
    simp

theorem read?_text (h : x.term.Readable) : read? x.text.toList = some x := by
  obtain ⟨t, negated⟩ := x
  rw [toList_text]
  cases negated with
  | true =>
    change (inside? (t.text.toList ++ [')'])).bind _ = _
    rw [inside?_append, Option.bind_some, Term.read?_text h]
    rfl
  | false =>
    have hplain : ∀ cs, t.text.toList ≠ 'n' :: 'o' :: 't' :: '(' :: cs := by
      intro cs heq
      exact Term.not_mem_delimiters h '(' (by simp [heq]) (by decide)
    rw [if_neg Bool.false_ne_true, read?]
    · rw [Term.read?_text h]
      rfl
    · exact hplain

theorem not_mem_text (h : x.term.Readable) {c : Char} (hc : c = ',' ∨ c = '=' ∨ c = '\n') :
    c ∉ x.text.toList := by
  have hterm : c ∉ x.term.text.toList := by
    intro hmem
    refine Term.not_mem_delimiters h c hmem ?_
    rcases hc with rfl | rfl | rfl <;> decide
  rw [toList_text]
  split
  · simp only [List.mem_append, hterm, false_or, not_or]
    rcases hc with rfl | rfl | rfl <;> decide
  · exact hterm

theorem text_ne_gate (h : x.term.Readable) (cs : List Char) :
    x.text.toList ≠ 'a' :: 'n' :: 'd' :: '(' :: cs := by
  intro heq
  rw [toList_text] at heq
  split at heq
  · simp at heq
  · exact Term.not_mem_delimiters h '(' (by simp [heq]) (by decide)

end Operand

theorem assignment?_append (target : List Char) {value : List Char} (h : '=' ∉ value) :
    assignment? (' ' :: ' ' :: (target ++ ' ' :: '=' :: ' ' :: value)) = some (target, value) := by
  have hreverse : (target ++ ' ' :: '=' :: ' ' :: value).reverse =
      (' ' :: value).reverse ++ '=' :: ' ' :: target.reverse := by simp
  have hbehind : ∀ c ∈ (' ' :: value).reverse, decide (c ≠ '=') = true := by
    intro c hc
    rw [decide_eq_true_iff]
    rintro rfl
    simp [h] at hc
  rw [assignment?, hreverse, List.dropWhile_append_of_pos hbehind,
    List.takeWhile_append_of_pos hbehind]
  simp

theorem pair?_append {a : List Char} (b : List Char) (h : ',' ∉ a) :
    pair? (a ++ ',' :: ' ' :: b) = some (a, b) := by
  have hfirst : ∀ c ∈ a, decide (c ≠ ',') = true := by
    intro c hc
    rw [decide_eq_true_iff]
    rintro rfl
    exact h hc
  rw [pair?, List.dropWhile_append_of_pos hfirst, List.takeWhile_append_of_pos hfirst]
  simp

namespace Statement

theorem toList_output (name : String) (a : Operand) :
    (output name a).text.toList =
      ' ' :: ' ' :: (name.toList ++ ' ' :: '=' :: ' ' :: a.text.toList) := by
  change ("  " ++ name ++ " = " ++ a.text).toList = _
  simp

theorem toList_gate (n : Nat) (a b : Operand) :
    (gate n a b).text.toList =
      ' ' :: ' ' :: (('%' :: Nat.toDigits 10 n) ++ ' ' :: '=' :: ' ' ::
        ('a' :: 'n' :: 'd' :: '(' :: (a.text.toList ++ ',' :: ' ' :: b.text.toList ++ [')']))) := by
  change ("  %" ++ toString n ++ " = and(" ++ a.text ++ ", " ++ b.text ++ ")").toList = _
  simp

theorem ofParts?_output (target : List Char) {value : List Char}
    (h : ∀ cs, value ≠ 'a' :: 'n' :: 'd' :: '(' :: cs) :
    ofParts? target value = (Operand.read? value).map (.output (String.ofList target)) := by
  rw [ofParts?]
  rintro digits cs rfl
  exact h cs

theorem read?_text {st : Statement} (h : st.Readable) : read? st.text.toList = some st := by
  cases st with
  | output name a =>
    have ha : a.term.Readable := h a List.mem_cons_self
    rw [toList_output, read?, assignment?_append _ (Operand.not_mem_text ha (.inr (.inl rfl))),
      Option.bind_some, ofParts?_output _ (Operand.text_ne_gate ha), Operand.read?_text ha]
    simp
  | gate n a b =>
    have ha : a.term.Readable := h a List.mem_cons_self
    have hb : b.term.Readable := h b (List.mem_cons_of_mem _ List.mem_cons_self)
    have hvalue : '=' ∉ 'a' :: 'n' :: 'd' :: '(' ::
        (a.text.toList ++ ',' :: ' ' :: b.text.toList ++ [')']) := by
      have heq {x : Operand} (hx : x.term.Readable) : '=' ∉ x.text.toList :=
        Operand.not_mem_text hx (.inr (.inl rfl))
      simp [heq ha, heq hb]
    rw [toList_gate, read?, assignment?_append _ hvalue, Option.bind_some, ofParts?,
      inside?_append, Option.bind_eq_bind, Option.bind_some,
      pair?_append _ (Operand.not_mem_text ha (.inl rfl))]
    simp [digits?_toDigits, Operand.read?_text ha, Operand.read?_text hb]

theorem newline_not_mem_text {st : Statement} (h : st.Readable)
    (hname : ∀ name a, st = output name a → '\n' ∉ name.toList) : '\n' ∉ st.text.toList := by
  have hoperand : ∀ x ∈ st.operands, '\n' ∉ x.text.toList :=
    fun x hx => Operand.not_mem_text (h x hx) (.inr (.inr rfl))
  cases st with
  | output name a =>
    rw [toList_output]
    simp [hname name a rfl, hoperand a List.mem_cons_self]
  | gate n a b =>
    have hdigits : '\n' ∉ Nat.toDigits 10 n := by
      intro hmem
      have hdigit := Nat.isDigit_of_mem_toDigits (by decide) (by decide) hmem
      exact absurd hdigit (by decide)
    rw [toList_gate]
    simp [hdigits, hoperand a (by simp [operands]), hoperand b (by simp [operands])]

end Statement

theorem Program.read?_text (heading : String) {program : Program}
    (h : ∀ st ∈ program, st.Readable) :
    Program.read? (heading :: program.map Statement.text ++ ["\x7d"]) = some program := by
  have hlines : (program.map Statement.text).mapM (fun line => Statement.read? line.toList) =
      some program := by
    induction program with
    | nil => rfl
    | cons st program ih =>
      rw [List.map_cons, List.mapM_cons, Statement.read?_text (h st List.mem_cons_self),
        ih fun st hst => h st (List.mem_cons_of_mem _ hst)]
      rfl
  rw [List.cons_append, Program.read?, if_pos List.getLast?_concat, List.dropLast_concat, hlines]

end Aig
end LogicResynthesis
