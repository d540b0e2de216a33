/-!
# Columns of bits

A column is a bit vector given by the value of each of its positions.
-/

namespace LogicResynthesis

/-- The bit vector whose position `i` holds `p i`. -/
def column {w : Nat} (p : Fin w → Bool) : BitVec w :=
  (BitVec.iunfoldr (fun i (_ : Unit) => ((), p i)) ()).2

theorem getLsbD_column {w : Nat} (p : Fin w → Bool) (i : Fin w) :
    (column p).getLsbD i = p i :=
  BitVec.iunfoldr_getLsbD (fun _ => ()) i fun _ => rfl

theorem column_getLsbD {w : Nat} (b : BitVec w) : column (fun i => b.getLsbD i) = b :=
  BitVec.eq_of_getLsbD_eq fun i hi => getLsbD_column _ ⟨i, hi⟩

end LogicResynthesis
