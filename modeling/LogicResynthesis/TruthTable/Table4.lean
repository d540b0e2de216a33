import LogicResynthesis.Fault
import LogicResynthesis.TruthTable.Column

/-!
# Functions of four inputs

A Boolean function of four inputs is its column of sixteen output bits. Bit `x`
is the output on the assignment whose input `k` is bit `k` of `x`, so input 0
toggles fastest. The statements say which row each operation writes.
-/

namespace LogicResynthesis

/-- An assignment of the four inputs, read as a binary number. -/
abbrev Assignment := Fin 16

namespace Assignment

def input (x : Assignment) (k : Fin 4) : Bool := x.val.testBit k

/-- The assignment with the given input values. -/
def ofInputs (v : Fin 4 → Bool) : Assignment :=
  (column v).toFin

theorem input_ofInputs (v : Fin 4 → Bool) (k : Fin 4) : (ofInputs v).input k = v k := by
  have h := getLsbD_column v k
  simpa [input, ofInputs, BitVec.getLsbD] using h

theorem ofInputs_input (x : Assignment) : ofInputs x.input = x :=
  congrArg BitVec.toFin (column_getLsbD (BitVec.ofFin (w := 4) x))

end Assignment

/-- A function of four inputs as its column of output bits. -/
structure Table4 where
  bits : BitVec 16
deriving DecidableEq, Repr

namespace Table4

instance : Inhabited Table4 := ⟨⟨0⟩⟩

/-- The column read as a number, row 0 being the lowest bit. -/
def toNat (f : Table4) : Nat := f.bits.toNat

def ofNat (n : Nat) : Table4 := ⟨BitVec.ofNat 16 n⟩

def row (f : Table4) (x : Assignment) : Bool := f.bits.getLsbD x

def ofRows (p : Assignment → Bool) : Table4 := ⟨column p⟩

def zero : Table4 := ⟨0⟩

def one : Table4 := ⟨BitVec.allOnes 16⟩

def projection (k : Fin 4) : Table4 := ofRows fun x => x.input k

def projection? (i : Nat) : Except Fault Table4 :=
  if h : i < 4 then .ok (projection ⟨i, h⟩) else .error (.noFourInputProjection i)

def complement (f : Table4) : Table4 := ⟨~~~f.bits⟩

def conj (f g : Table4) : Table4 := ⟨f.bits &&& g.bits⟩

def exclusiveOr (f g : Table4) : Table4 := ⟨f.bits ^^^ g.bits⟩

def complementIf (f : Table4) (b : Bool) : Table4 := if b then f.complement else f

/-- The next column in numeric order, the last one being followed by the first. -/
def next (f : Table4) : Table4 := ⟨f.bits + 1⟩

def setRow (f : Table4) (x : Assignment) (b : Bool) : Table4 :=
  ⟨if b then f.bits ||| BitVec.twoPow 16 x else f.bits &&& ~~~BitVec.twoPow 16 x⟩

def row? (f : Table4) (i : Nat) : Except Fault Bool :=
  if h : i < 16 then .ok (f.row ⟨i, h⟩) else .error (.rowOutOfRange i 16)

def setRow? (f : Table4) (i : Nat) (b : Bool) : Except Fault Table4 :=
  if h : i < 16 then .ok (f.setRow ⟨i, h⟩ b) else .error (.rowOutOfRange i 16)

/-- Whether some two assignments that differ in input `k` alone are told apart. -/
def dependsOn (f : Table4) (k : Fin 4) : Bool :=
  let mask := (projection k).bits
  (((f.bits &&& mask) >>> (1 <<< k.val)) ^^^ (f.bits &&& ~~~mask)) != 0

/-- The distance `2 ^ i` between compared rows has to fit in 32 bits. -/
def dependsOn? (f : Table4) (i : Nat) : Except Fault Bool :=
  if h : i < 4 then .ok (f.dependsOn ⟨i, h⟩)
  else if i < 32 then .error (.noFourInputProjection i)
  else .error (.shiftTooFar i)

@[simp] theorem toNat_ofNat {n : Nat} (h : n < 65536) : (ofNat n).toNat = n := by
  simp only [ofNat, toNat, BitVec.toNat_ofNat]
  omega

@[simp] theorem ofNat_toNat (f : Table4) : ofNat f.toNat = f := by
  simp [ofNat, toNat]

@[ext] theorem ext {f g : Table4} (h : ∀ x, f.row x = g.row x) : f = g := by
  cases f
  cases g
  congr 1
  apply BitVec.eq_of_getLsbD_eq
  intro i hi
  exact h ⟨i, hi⟩

@[simp] theorem row_ofRows (p : Assignment → Bool) (x : Assignment) : (ofRows p).row x = p x :=
  getLsbD_column p x

@[simp] theorem row_zero (x : Assignment) : zero.row x = false := by
  simp [row, zero]

@[simp] theorem row_one (x : Assignment) : one.row x = true := by
  simp only [row, one, BitVec.getLsbD_allOnes, x.isLt, decide_true]

@[simp] theorem row_projection (k : Fin 4) (x : Assignment) :
    (projection k).row x = x.input k := row_ofRows _ x

@[simp] theorem row_complement (f : Table4) (x : Assignment) :
    f.complement.row x = !f.row x := by
  simp [row, complement]

@[simp] theorem row_conj (f g : Table4) (x : Assignment) :
    (f.conj g).row x = (f.row x && g.row x) := by
  simp [row, conj]

@[simp] theorem row_exclusiveOr (f g : Table4) (x : Assignment) :
    (f.exclusiveOr g).row x = (f.row x ^^ g.row x) := by
  simp [row, exclusiveOr]

@[simp] theorem row_complementIf (f : Table4) (b : Bool) (x : Assignment) :
    (f.complementIf b).row x = (f.row x ^^ b) := by
  cases b <;> simp [complementIf]

theorem row_setRow (f : Table4) (x y : Assignment) (b : Bool) :
    (f.setRow x b).row y = if y = x then b else f.row y := by
  have hy := y.isLt
  by_cases h : y = x
  · subst h
    cases b <;> simp [row, setRow]
  · have h' : ¬ (y.val = x.val) := fun e => h (Fin.ext e)
    cases b <;> simp [row, setRow, h, h']

theorem complement_complement (f : Table4) : f.complement.complement = f := by
  ext x
  simp

end Table4

end LogicResynthesis
