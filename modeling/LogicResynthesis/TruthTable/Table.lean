import LogicResynthesis.TruthTable.Table4

/-!
# Functions of up to six inputs

A table over `n` inputs is a column of `2 ^ n` output bits, rows ordered as in
the four-input case. A narrow table is widened to four inputs by repeating its
column, so that the added inputs do not matter.
-/

namespace LogicResynthesis

/-- The number of assignments of `n` inputs. -/
def rowCount (n : Nat) : Nat := Nat.pow 2 n

theorem rowCount_pos (n : Nat) : 0 < rowCount n := Nat.two_pow_pos n

structure Table where
  inputs : Nat
  bits : BitVec (rowCount inputs)
  inputs_le : inputs ≤ 6
deriving DecidableEq

namespace Table

def maxInputs : Nat := 6

variable (t : Table)

def rows : Nat := rowCount t.inputs

theorem rows_pos : 0 < t.rows := rowCount_pos _

/-- The output on row `i`, `false` past the last row. -/
def row (i : Nat) : Bool := t.bits.getLsbD i

/-- The column read as a number, row 0 being the lowest bit. -/
def toNat : Nat := t.bits.toNat

def zero (n : Nat) (h : n ≤ 6) : Table := ⟨n, 0, h⟩

/-- The function of `n` inputs whose output on row `i` is `p i`. -/
def ofRows (n : Nat) (h : n ≤ 6) (p : Nat → Bool) : Table :=
  ⟨n, column fun i => p i, h⟩

def zero? (n : Nat) : Except Fault Table :=
  if h : n ≤ 6 then .ok (zero n h) else .error (.tooManyInputs n)

def complement : Table := { t with bits := ~~~t.bits }

def one? (n : Nat) : Except Fault Table := (zero? n).map complement

def projection (n : Nat) (h : n ≤ 6) (i : Fin n) : Table :=
  ofRows n h fun x => x.testBit i

def projection? (n i : Nat) : Except Fault Table :=
  if hi : i < n then
    if h : n ≤ 6 then .ok (projection n h ⟨i, hi⟩) else .error (.tooManyInputs n)
  else .error (.noProjection i n)

/-- Applies an operation on columns to two tables of one width. -/
def combine? (op : ∀ {w : Nat}, BitVec w → BitVec w → BitVec w) (t u : Table) :
    Except Fault Table :=
  if h : u.inputs = t.inputs then .ok { t with bits := op t.bits (u.bits.cast (by rw [h])) }
  else .error (.widthMismatch t.inputs u.inputs)

def conj? : Table → Table → Except Fault Table := combine? (· &&& ·)

def exclusiveOr? : Table → Table → Except Fault Table := combine? (· ^^^ ·)

def row? (i : Nat) : Except Fault Bool :=
  if i < t.rows then .ok (t.row i) else .error (.rowOutOfRange i t.rows)

def setRow (i : Nat) (b : Bool) : Table :=
  { t with bits := column fun x => if x.val = i then b else t.row x }

def setRow? (i : Nat) (b : Bool) : Except Fault Table :=
  if i < t.rows then .ok (t.setRow i b) else .error (.rowOutOfRange i t.rows)

/-- The function of four inputs that ignores the inputs which `t` lacks. -/
def toTable4? : Option Table4 :=
  if t.inputs ≤ 4 then some (Table4.ofRows fun x => t.row (x.val % t.rows)) else none

def ofTable4 (f : Table4) : Table := ⟨4, f.bits, by decide⟩

theorem row_ofRows {n : Nat} (h : n ≤ 6) (p : Nat → Bool) {i : Nat} (hi : i < rowCount n) :
    (ofRows n h p).row i = p i :=
  getLsbD_column (fun i : Fin (rowCount n) => p i) ⟨i, hi⟩

theorem row_complement {i : Nat} (hi : i < t.rows) : t.complement.row i = !t.row i := by
  simp only [rows] at hi
  simp [row, complement, hi]

theorem row_setRow {i j : Nat} (b : Bool) (hj : j < t.rows) :
    (t.setRow i b).row j = if j = i then b else t.row j :=
  getLsbD_column (fun x : Fin (rowCount t.inputs) => if x.val = i then b else t.row x) ⟨j, hj⟩

theorem toTable4?_eq_some (h : t.inputs ≤ 4) :
    t.toTable4? = some (Table4.ofRows fun x => t.row (x.val % t.rows)) := by
  simp [toTable4?, h]

theorem toTable4?_ofTable4 (f : Table4) : (ofTable4 f).toTable4? = some f := by
  rw [toTable4?_eq_some _ (Nat.le_refl 4)]
  congr 1
  ext x
  rw [Table4.row_ofRows]
  have h : x.val % (ofTable4 f).rows = x.val := Nat.mod_eq_of_lt x.isLt
  rw [h]
  rfl

end Table

end LogicResynthesis
