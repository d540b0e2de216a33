import Std.Data.HashSet
import LogicResynthesis.Fault

/-!
# Post-order of fanin cones

The nodes below some roots, each once and after its fanins. Nodes that are done
beforehand are left out, and the walk does not go below them. The walk keeps a
stack of nodes; a node is met a first time to put its fanins above it and a
second time to be emitted.

On an acyclic graph every node is expanded at most once, so the number of steps
is bounded by the roots and three times the nodes. A walk that takes longer has
come back to an unfinished node.
-/

namespace LogicResynthesis
namespace Dag

/-- A node on the stack and whether its fanins have been put above it. -/
structure Frame where
  node : Nat
  expanded : Bool
deriving DecidableEq, Repr

/-- The state of a walk: the stack, and the nodes emitted so far, the latest first. -/
structure Walk where
  stack : List Frame
  emitted : Std.HashSet Nat
  reversed : List Nat

namespace Walk

def start (roots : List Nat) : Walk := ⟨roots.map (⟨·, false⟩), ∅, []⟩

/-- Emits a node whose fanins are finished. -/
def emit (n : Nat) (rest : List Frame) (w : Walk) : Walk :=
  ⟨rest, w.emitted.insert n, n :: w.reversed⟩

/-- Puts the unfinished fanins of a node above it, the first one on top. -/
def expand (done : Nat → Bool) (n : Nat) (fanins : List Nat) (rest : List Frame) (w : Walk) :
    Walk :=
  let pending := fanins.filter fun m => !(done m || w.emitted.contains m)
  { w with stack := pending.map (⟨·, false⟩) ++ ⟨n, true⟩ :: rest }

/-- Takes at most `fuel` steps. -/
def run (fanins : Nat → Except Fault (List Nat)) (done : Nat → Bool) :
    Nat → Walk → Except Fault (List Nat)
  | 0, w => if w.stack.isEmpty then .ok w.reversed.reverse else .error .cyclicFanins
  | fuel + 1, w =>
    match w.stack with
    | [] => .ok w.reversed.reverse
    | ⟨n, expanded⟩ :: rest =>
      if done n || w.emitted.contains n then run fanins done fuel { w with stack := rest }
      else if expanded then run fanins done fuel (w.emit n rest)
      else
        match fanins n with
        | .error f => .error f
        | .ok ns => run fanins done fuel (w.expand done n ns rest)

end Walk

/-- The post-order below `roots` in a graph of `size` nodes with at most two fanins each. -/
def postOrder (size : Nat) (fanins : Nat → Except Fault (List Nat)) (done : Nat → Bool)
    (roots : List Nat) : Except Fault (List Nat) :=
  Walk.run fanins done (roots.length + 3 * size) (Walk.start roots)

end Dag
end LogicResynthesis
