/-!
# Signals

A signal is a node of a graph together with a complement flag, so that inverters
are free. Node 0 of every graph is the constant `false`. Signals are ordered by
node, the plain signal of a node coming before its complement.
-/

namespace LogicResynthesis

structure Signal where
  node : Nat
  negated : Bool
deriving DecidableEq, Hashable, Repr

namespace Signal

def constant (b : Bool) : Signal := ⟨0, b⟩

/-- The uncomplemented signal of a node. -/
def ofNode (node : Nat) : Signal := ⟨node, false⟩

def complement (s : Signal) : Signal := ⟨s.node, !s.negated⟩

def complementIf (s : Signal) (b : Bool) : Signal := ⟨s.node, s.negated ^^ b⟩

def regular (s : Signal) : Signal := ⟨s.node, false⟩

/-- The node, if the signal is not a complement. -/
def plainNode? (s : Signal) : Option Nat := if s.negated then none else some s.node

/-- The order by node and then by complement flag. -/
def atMost (s t : Signal) : Bool :=
  s.node < t.node || (s.node == t.node && (!s.negated || t.negated))

def isFalse (s : Signal) : Bool := s.node == 0 && !s.negated

def isTrue (s : Signal) : Bool := s.node == 0 && s.negated

@[simp] theorem complement_complement (s : Signal) : s.complement.complement = s := by
  simp [complement]

@[simp] theorem complementIf_false (s : Signal) : s.complementIf false = s := by
  simp [complementIf]

theorem complementIf_true (s : Signal) : s.complementIf true = s.complement := by
  simp [complementIf, complement]

theorem atMost_total (s t : Signal) : s.atMost t = true ∨ t.atMost s = true := by
  rcases Nat.lt_trichotomy s.node t.node with h | h | h
  · simp [atMost, h]
  · cases hs : s.negated <;> simp [atMost, h, hs]
  · simp [atMost, h]

theorem node_le_of_atMost {s t : Signal} (h : s.atMost t = true) : s.node ≤ t.node := by
  simp only [atMost, Bool.or_eq_true, Bool.and_eq_true, decide_eq_true_eq, beq_iff_eq] at h
  omega

theorem eq_of_atMost {s t : Signal} (h : s.atMost t = true) (h' : t.atMost s = true) : s = t := by
  obtain ⟨n, p⟩ := s
  obtain ⟨m, q⟩ := t
  simp only [atMost, Bool.or_eq_true, Bool.and_eq_true, decide_eq_true_eq, beq_iff_eq] at h h'
  cases p <;> cases q <;> simp_all <;> omega

end Signal

end LogicResynthesis
