import LogicResynthesis.Npn.Canonical

/-!
# The class of every function

All 65536 functions are classified at once. They are visited in ascending order;
a function that has no entry yet is the smallest of its class, and each of its
images that has no entry yet receives one that names it as representative.
-/

namespace LogicResynthesis
namespace Npn

def numFunctions : Nat := 65536

theorem toNat_lt (f : Table4) : f.toNat < numFunctions := f.bits.isLt

/-- The entries found so far, by function, and the number of classes met. -/
structure OrbitScan where
  slots : Vector (Option Entry) numFunctions
  classes : Nat

namespace OrbitScan

def empty : OrbitScan := ⟨Vector.replicate numFunctions none, 0⟩

abbrev Slots := Vector (Option Entry) numFunctions

def find? (slots : Slots) (f : Table4) : Option Entry := slots.get ⟨f.toNat, toNat_lt f⟩

/-- Gives `f` the entry `e` unless it has one. -/
def claim (slots : Slots) (f : Table4) (e : Entry) : Slots :=
  if (find? slots f).isNone then slots.set f.toNat (some e) (toNat_lt f) else slots

/-- Claims every image of `r` for the class of `r`. -/
def claimOrbit (slots : Slots) (r : Table4) : Slots :=
  Transform.all.foldl (fun slots t => claim slots (t.unapply r) ⟨r, t⟩) slots

def visit (scan : OrbitScan) (f : Table4) : OrbitScan :=
  match scan with
  | ⟨slots, classes⟩ =>
    if (find? slots f).isNone then ⟨claimOrbit slots f, classes + 1⟩ else ⟨slots, classes⟩

/-- The scan over all functions in ascending order. -/
def complete : OrbitScan :=
  (List.range numFunctions).foldl (fun scan n => scan.visit (Table4.ofNat n)) empty

end OrbitScan

structure ClassTable where
  entries : Vector Entry numFunctions
  classes : Nat

namespace ClassTable

/-- The finished table. A function that no orbit had reached would stand for itself. -/
def ofScan (scan : OrbitScan) : ClassTable where
  entries := Vector.ofFn fun i =>
    (scan.slots[i]).getD ⟨Table4.ofNat i, Transform.identity⟩
  classes := scan.classes

/-- The table of all functions of four inputs. -/
def standard : ClassTable := ofScan OrbitScan.complete

variable (T : ClassTable)

def lookup (f : Table4) : Entry := T.entries.get ⟨f.toNat, toNat_lt f⟩

def representative (f : Table4) : Table4 := (T.lookup f).representative

def isRepresentative (f : Table4) : Bool := T.representative f = f

def representatives : List Table4 :=
  ((List.range numFunctions).map Table4.ofNat).filter T.isRepresentative

theorem isRepresentative_iff (f : Table4) :
    T.isRepresentative f = true ↔ T.representative f = f := by
  simp [isRepresentative]

end ClassTable

end Npn
end LogicResynthesis
