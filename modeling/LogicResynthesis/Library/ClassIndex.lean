import LogicResynthesis.Npn.ClassTable
import LogicResynthesis.Xag.Simulation

/-!
# Circuits of a library by class

A library node is registered under its function if that is a representative,
and as a complemented signal under the complement of its function if that is
one. Other nodes are left out: their class is reached through another node or
not at all. The registered signals are kept in node order.
-/

namespace LogicResynthesis

open Npn (ClassTable)

/-- Signals under the representatives that they compute, in node order. -/
structure ClassIndex where
  entries : List (Table4 × Signal)
deriving DecidableEq

namespace ClassIndex

/-- How a node with function `f` is registered. -/
def register? (T : ClassTable) (f : Table4) (node : Nat) : Option (Table4 × Signal) :=
  if T.isRepresentative f then some (f, ⟨node, false⟩)
  else if T.isRepresentative f.complement then some (f.complement, ⟨node, true⟩)
  else none

/-- The index of nodes with the given functions. -/
def ofTables (T : ClassTable) (tables : List Table4) : ClassIndex :=
  ⟨tables.zipIdx.filterMap fun p => register? T p.1 p.2⟩

def ofXag? (T : ClassTable) (g : Xag) : Except Fault ClassIndex := do
  return ofTables T (← g.tables?).toList

variable (c : ClassIndex)

def signals (f : Table4) : List Signal :=
  c.entries.filterMap fun e => if e.1 = f then some e.2 else none

/-- The signals registered under `f`, if there are any. -/
def get? (f : Table4) : Option (List Signal) :=
  match c.signals f with
  | [] => none
  | s :: rest => some (s :: rest)

def numSignals : Nat := c.entries.length

/-- The covered representatives in ascending order. -/
def representatives : List Table4 :=
  (c.entries.map (·.1)).eraseDups.mergeSort fun f g => f.toNat ≤ g.toNat

/-- The number of classes with at least one signal. -/
def covered : Nat := c.representatives.length

theorem mem_signals {f : Table4} {s : Signal} : s ∈ c.signals f ↔ (f, s) ∈ c.entries := by
  simp only [signals, List.mem_filterMap, Option.ite_none_right_eq_some, Option.some.injEq]
  constructor
  · rintro ⟨⟨_, _⟩, h, rfl, rfl⟩
    exact h
  · intro h
    exact ⟨_, h, rfl, rfl⟩

end ClassIndex

end LogicResynthesis
