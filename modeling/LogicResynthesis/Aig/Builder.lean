import LogicResynthesis.Aig.Simulation
import LogicResynthesis.Aig.StructuralHash
import LogicResynthesis.Resynthesis.Network

/-!
# Building netlists

A builder grows a netlist gate by gate. With folding, gates with constant, equal
or opposite operands are not built, and neither are those that absorb,
`(x ∨ y) ∧ y = y`. With hashing, a gate of a known structural class is answered
by the first gate of that class; its own place in the netlist stays, unused.
-/

namespace LogicResynthesis
namespace Aig

structure Builder where
  netlist : Netlist
  folding : Bool
  /-- The classes of the gates so far, if gates are shared. -/
  hash : Option StructuralHash

namespace Builder

/-- A netlist that holds the constant only. -/
def new (name : String) (folding hashing : Bool) : Builder where
  netlist := ⟨name, #[], #[], #[.literal false]⟩
  folding := folding
  hash := if hashing then some .empty else none

variable (b : Builder)

def nodes : Array Node := b.netlist.nodes

/-- The number of nodes, used or not. -/
def size : Nat := b.netlist.nodes.size

def hashing : Bool := b.hash.isSome

def fresh (name : String) : Builder := new name b.folding b.hashing

def addInput (name : String) : Signal × Builder :=
  let s := Signal.ofNode b.size
  (s, { b with netlist := { b.netlist with
          nodes := b.netlist.nodes.push (.input name)
          inputs := b.netlist.inputs.push ⟨name, s⟩ } })

def addOutput (name : String) (s : Signal) : Builder :=
  { b with netlist := { b.netlist with outputs := b.netlist.outputs.push ⟨name, s⟩ } }

/-- The operands `x` and `y` of a signal that reads as `x ∨ y`. -/
def asOr? (nodes : Array Node) (s : Signal) : Except Fault (Option (Signal × Signal)) :=
  if s.negated then do
    match ← node? nodes s.node with
    | .and x y => return some (x.complement, y.complement)
    | _ => return none
  else .ok none

/-- Whether `s` reads as a disjunction with `t`. -/
def absorbs? (nodes : Array Node) (s t : Signal) : Except Fault Bool :=
  (asOr? nodes s).map fun
    | some (x, y) => x = t || y = t
    | none => false

/-- The signal that equals `x ∧ y` without a gate. -/
def foldAnd? (nodes : Array Node) (x y : Signal) : Except Fault (Option Signal) :=
  if x.isFalse || y.isFalse then .ok (some (.constant false))
  else if x.isTrue then .ok (some y)
  else if y.isTrue then .ok (some x)
  else if x = y then .ok (some x)
  else if x = y.complement then .ok (some (.constant false))
  else do
    if ← absorbs? nodes x y then return some y
    if ← absorbs? nodes y x then return some x
    return none

/-- Adds a gate to the netlist, and answers with the gate that stands for it. -/
def pushAnd (x y : Signal) : Except Fault (Signal × Builder) :=
  match b with
  | ⟨netlist, folding, hash⟩ =>
    let n := netlist.nodes.size
    let netlist := { netlist with nodes := netlist.nodes.push (.and x y) }
    match hash with
    | none => .ok (.ofNode n, ⟨netlist, folding, none⟩)
    | some h =>
      match h.feed netlist.nodes n with
      | .error f => .error f
      | .ok (known, h) => .ok (.ofNode (known.getD n), ⟨netlist, folding, some h⟩)

def addAnd (x y : Signal) : Except Fault (Signal × Builder) :=
  if b.folding then
    match foldAnd? b.nodes x y with
    | .error f => .error f
    | .ok (some s) => .ok (s, b)
    | .ok none => b.pushAnd x y
  else b.pushAnd x y

/-- A disjunction is the complement of an AND of complements. -/
def addOr (x y : Signal) : Except Fault (Signal × Builder) := do
  let (s, b) ← b.addAnd x.complement y.complement
  return (s.complement, b)

/-- The signal that equals `x ⊕ y` without a gate. -/
def foldXor? (x y : Signal) : Option Signal :=
  if x.isFalse then some y
  else if y.isFalse then some x
  else if x.isTrue then some y.complement
  else if y.isTrue then some x.complement
  else none

/-- An exclusive or takes three gates, `(x ∧ ¬y) ∨ (¬x ∧ y)`. -/
def expandXor (x y : Signal) : Except Fault (Signal × Builder) := do
  let (l, b) ← b.addAnd x y.complement
  let (r, b) ← b.addAnd x.complement y
  b.addOr l r

def addXor (x y : Signal) : Except Fault (Signal × Builder) :=
  if b.folding then
    match foldXor? x y with
    | some s => .ok (s, b)
    | none => b.expandXor x y
  else b.expandXor x y

/-- The function of a signal when input `i` is variable `i`, for the first four inputs. -/
def tableOf (s : Signal) : Except Fault Table4 :=
  simulate b.nodes b.netlist.inputs.toList ((List.finRange 4).map Table4.projection) s

/-- The logic depth of a signal as the classes of gates know it. -/
def depth? (s : Signal) : Except Fault (Option (Nat × Builder)) :=
  match b.hash with
  | none => .ok none
  | some h => (h.summarize b.nodes s.node).map fun r => some (r.1.depth, { b with hash := some r.2 })

instance : Network Builder where
  addAnd? := addAnd
  addXor? := addXor

end Builder

end Aig
end LogicResynthesis
