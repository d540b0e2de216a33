import LogicResynthesis.Npn.Transform

/-!
# The canonical function by exhaustive search

Two functions are equivalent if some transform relates them. The representative
of a class is its numerically smallest function. Here it is found by trying all
transforms; the first one that reaches the smallest image is kept.
-/

namespace LogicResynthesis
namespace Npn

/-- A representative and the transform that leads back from it. -/
structure Entry where
  representative : Table4
  transform : Transform
deriving DecidableEq, Repr

namespace Entry

def image (f : Table4) (t : Transform) : Entry := ⟨t.apply f, t⟩

/-- The entry with the smaller representative, `e` if they are equal. -/
def smaller (e d : Entry) : Entry :=
  if d.representative.toNat < e.representative.toNat then d else e

theorem smaller_le_left (e d : Entry) :
    (e.smaller d).representative.toNat ≤ e.representative.toNat := by
  unfold smaller
  split <;> omega

theorem smaller_le_right (e d : Entry) :
    (e.smaller d).representative.toNat ≤ d.representative.toNat := by
  unfold smaller
  split <;> omega

end Entry

/-- The smallest image of `f`, under the first transform that reaches it. -/
def canonical (f : Table4) : Entry :=
  (Transform.all.map (Entry.image f)).foldl Entry.smaller (Entry.image f Transform.identity)

end Npn
end LogicResynthesis
