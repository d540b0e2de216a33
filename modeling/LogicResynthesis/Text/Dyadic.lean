/-!
# Dyadic numbers and fixed places

Times are reported through numbers with 53 significant bits. A quotient is
rounded to the nearest such number, and a number is written with two decimal
places; a half goes to the even neighbour both times.
-/

namespace LogicResynthesis.Text

/-- The whole number nearest to `num / den`; a half goes to the even one. -/
def roundDiv (num den : Nat) : Nat :=
  let q := num / den
  let r := num % den
  if 2 * r < den then q else if den < 2 * r then q + 1 else q + q % 2

/-- The number `mantissa / 2 ^ halvings`. -/
structure Dyadic where
  mantissa : Nat
  halvings : Nat
deriving DecidableEq, Repr

namespace Dyadic

def ofNat (n : Nat) : Dyadic := ⟨n, 0⟩

/-- The number with at most 53 significant bits that is nearest to `num / den`. -/
def nearest (num den : Nat) : Dyadic :=
  let halvings := 53 + den.log2 - num.log2
  let scaled := num <<< halvings
  let spare := (scaled / den).log2 + 1 - 53
  ⟨roundDiv scaled (den <<< spare) <<< spare, halvings⟩

def add (x y : Dyadic) : Dyadic :=
  nearest (x.mantissa <<< y.halvings + y.mantissa <<< x.halvings)
    (1 <<< (x.halvings + y.halvings))

/-- The number of hundredths nearest to a number. -/
def hundredths (x : Dyadic) : Nat := roundDiv (x.mantissa * 100) (1 <<< x.halvings)

/-- The written form with two decimal places. -/
def toFixed (x : Dyadic) : String :=
  let n := x.hundredths
  s!"{n / 100}.{n / 10 % 10}{n % 10}"

end Dyadic

theorem roundDiv_mul (q den : Nat) (h : 0 < den) : roundDiv (q * den) den = q := by
  simp [roundDiv, h]

/-- Rounding moves a quotient by at most half a unit. -/
theorem roundDiv_near (num : Nat) {den : Nat} (hden : 0 < den) :
    2 * num ≤ (2 * roundDiv num den + 1) * den ∧ 2 * roundDiv num den * den ≤ 2 * num + den := by
  have hr := Nat.mod_lt num hden
  have h := Nat.div_add_mod num den
  simp only [roundDiv]
  generalize num / den = q at *
  generalize num % den = r at *
  subst h
  split
  · constructor <;> grind
  · split
    · constructor <;> grind
    · rcases Nat.mod_two_eq_zero_or_one q with e | e <;> rw [e] <;> constructor <;> grind

end LogicResynthesis.Text
