import LogicResynthesis.Dag.PostOrder
import LogicResynthesis.Resynthesis.Network

/-!
# Copying library cones

The cone of a library node is copied gate by gate into a target network. A memo
holds the target signal of every library node that has one; it starts with the
constant and the inputs, and nodes in it are never built again. The cone of the
second operand is built before that of the first.
-/

namespace LogicResynthesis

/-- The target signals of library nodes. -/
abbrev Memo := Std.HashMap Nat Signal

/-- The target signal of a library signal. -/
def Memo.resolve? (memo : Memo) (s : Signal) : Except Fault Signal :=
  match memo[s.node]? with
  | some t => .ok (t.complementIf s.negated)
  | none => .error (.notCopied s.node)

/-- A target and the memo of what has been copied into it. -/
structure Copy (σ : Type) where
  memo : Memo
  target : σ

namespace Copy

variable {σ : Type} [Network σ]

/-- Builds the gate of a library node, whose operands have been copied. -/
def addNode (library : Xag) (c : Copy σ) (n : Nat) : Except Fault (Copy σ) :=
  match c with
  | ⟨memo, target⟩ => do
    match ← library.node? n with
    | .and a b =>
      let r ← Network.addAnd? target (← Memo.resolve? memo a) (← Memo.resolve? memo b)
      return ⟨memo.insert n r.1, r.2⟩
    | .xor a b =>
      let r ← Network.addXor? target (← Memo.resolve? memo a) (← Memo.resolve? memo b)
      return ⟨memo.insert n r.1, r.2⟩
    | _ => throw (.notCopied n)

/-- The fanins of a library node in the order in which their cones are built. -/
def pendingFanins (library : Xag) (n : Nat) : Except Fault (List Nat) :=
  (library.node? n).map fun node => (node.fanins.map (·.node)).reverse

/-- Copies the cone of `root` and returns its target signal. -/
def addCone (library : Xag) (c : Copy σ) (root : Nat) : Except Fault (Signal × Copy σ) := do
  let order ← Dag.postOrder library.size (pendingFanins library) (c.memo.contains ·) [root]
  let c ← order.foldlM (addNode library) c
  return (← Memo.resolve? c.memo (.ofNode root), c)

end Copy

end LogicResynthesis
