import LogicResynthesis.Xag.Basic

/-!
# Target networks

Candidates are built in a target network, which offers AND and XOR gates over
signals. The constant is node 0 of every network and complements are free, so
they need no operation. A target may fold or share what it is asked for; a
counted target records how many gates were asked for.
-/

namespace LogicResynthesis

/-- Graphs in which AND and XOR gates can be requested. -/
class Network (σ : Type) where
  addAnd? : σ → Signal → Signal → Except Fault (Signal × σ)
  addXor? : σ → Signal → Signal → Except Fault (Signal × σ)

instance : Network Xag where
  addAnd? g x y := .ok (g.addAnd x y)
  addXor? g x y := .ok (g.addXor x y)

/-- A target with the numbers of gates requested of it. -/
structure Counted (σ : Type) where
  target : σ
  ands : Nat
  xors : Nat

namespace Counted

variable {σ : Type}

def start (target : σ) : Counted σ := ⟨target, 0, 0⟩

def requested (c : Counted σ) : Nat := c.ands + c.xors

instance [Network σ] : Network (Counted σ) where
  addAnd? c x y :=
    match c with
    | ⟨target, ands, xors⟩ =>
      (Network.addAnd? target x y).map fun r => (r.1, ⟨r.2, ands + 1, xors⟩)
  addXor? c x y :=
    match c with
    | ⟨target, ands, xors⟩ =>
      (Network.addXor? target x y).map fun r => (r.1, ⟨r.2, ands, xors + 1⟩)

end Counted

end LogicResynthesis
