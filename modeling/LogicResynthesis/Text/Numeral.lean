/-!
# Numerals

Reading and writing natural numbers in base ten and sixteen. A reader takes one
optional plus sign, at least one digit, any number of leading zeros, and refuses
values that reach a given bound. The writer uses the lower-case digits.
-/

namespace LogicResynthesis.Text

/-- The value of a digit, letters of either case counting from ten. -/
def digitValue? (c : Char) : Option Nat :=
  if '0' ≤ c ∧ c ≤ '9' then some (c.toNat - '0'.toNat)
  else if 'a' ≤ c ∧ c ≤ 'z' then some (c.toNat - 'a'.toNat + 10)
  else if 'A' ≤ c ∧ c ≤ 'Z' then some (c.toNat - 'A'.toNat + 10)
  else none

def digitOf? (base : Nat) (c : Char) : Option Nat :=
  (digitValue? c).filter (· < base)

/-- The number that stands once the digit `c` has been read after `acc`. -/
def shiftIn (base acc : Nat) (c : Char) : Option Nat :=
  (digitOf? base c).map (base * acc + ·)

/-- The value of a non-empty run of digits. -/
def digits? (base : Nat) : List Char → Option Nat
  | [] => none
  | c :: cs => (c :: cs).foldlM (shiftIn base) 0

/-- One optional plus sign, then digits. -/
def natural? (base : Nat) : List Char → Option Nat
  | '+' :: cs => digits? base cs
  | cs => digits? base cs

/-- A natural number below `bound`. -/
def bounded? (base bound : Nat) (cs : List Char) : Option Nat :=
  (natural? base cs).filter (· < bound)

/-- Machine words have 64 bits. -/
def wordBound : Nat := 18446744073709551616

def hexDigit (d : Nat) : Char :=
  if d < 10 then Char.ofNat ('0'.toNat + d) else Char.ofNat ('a'.toNat + (d - 10))

/-- The fewest hexadecimal digits that denote `n`. -/
def hexDigits (n : Nat) : List Char :=
  if n < 16 then [hexDigit n] else hexDigits (n / 16) ++ [hexDigit (n % 16)]
termination_by n
decreasing_by omega

/-- Zeros in front, up to `width` digits. -/
def padZeros (width : Nat) (cs : List Char) : List Char :=
  List.replicate (width - cs.length) '0' ++ cs

theorem digits?_of_ne_nil {base : Nat} {cs : List Char} (h : cs ≠ []) :
    digits? base cs = cs.foldlM (shiftIn base) 0 := by
  cases cs with
  | nil => exact absurd rfl h
  | cons c cs => rfl

theorem digitOf?_hexDigit : ∀ {d : Nat}, d < 16 → digitOf? 16 (hexDigit d) = some d := by
  decide

theorem hexDigits_ne_nil (n : Nat) : hexDigits n ≠ [] := by
  unfold hexDigits
  split <;> simp

/-- Reading what was written gives the number back. -/
theorem foldlM_hexDigits (n : Nat) : (hexDigits n).foldlM (shiftIn 16) 0 = some n := by
  induction n using Nat.strongRecOn with
  | _ n ih =>
    unfold hexDigits
    split
    · next h => simp [shiftIn, digitOf?_hexDigit h]
    · next h =>
      have hm : n % 16 < 16 := Nat.mod_lt _ (by decide)
      rw [List.foldlM_append, ih (n / 16) (by omega)]
      simp [shiftIn, digitOf?_hexDigit hm]
      omega

theorem digits?_hexDigits (n : Nat) : digits? 16 (hexDigits n) = some n := by
  rw [digits?_of_ne_nil (hexDigits_ne_nil n), foldlM_hexDigits]

theorem foldlM_zeros (count : Nat) (cs : List Char) :
    (List.replicate count '0' ++ cs).foldlM (shiftIn 16) 0 = cs.foldlM (shiftIn 16) 0 := by
  induction count with
  | zero => rfl
  | succ n ih =>
    rw [List.replicate_succ, List.cons_append, List.foldlM_cons]
    exact ih

theorem digits?_padZeros_hexDigits (width n : Nat) :
    digits? 16 (padZeros width (hexDigits n)) = some n := by
  have h : padZeros width (hexDigits n) ≠ [] := by simp [padZeros, hexDigits_ne_nil]
  rw [digits?_of_ne_nil h, padZeros, foldlM_zeros, foldlM_hexDigits]

theorem length_padZeros (width : Nat) (cs : List Char) :
    (padZeros width cs).length = max width cs.length := by
  simp [padZeros]
  omega

end LogicResynthesis.Text
