import Mathlib.Logic.Relation
import LogicResynthesis.Proofs.IndexList.Decoding
import LogicResynthesis.Proofs.Resynthesis.Requests

/-!
# Requests that a graph has answered

How an XAG answers a request depends on the operands and the table of gates only,
and no operation changes an entry of the table. So a request is answered again
with the same signal, and nothing changes, even if the operands are no signals of
the graph.
-/

namespace LogicResynthesis
namespace Xag

variable {g g' g'' : Xag}

/-- The gates in the table of the first graph are in that of the second, under the same nodes. -/
def KnownIn (g g' : Xag) : Prop :=
  ∀ (gate : Node) (n : Nat), g.gateNodes[gate]? = some n → g'.gateNodes[gate]? = some n

theorem KnownIn.refl (g : Xag) : g.KnownIn g := fun _ _ h => h

theorem KnownIn.trans (h : g.KnownIn g') (h' : g'.KnownIn g'') : g.KnownIn g'' :=
  fun gate n hn => h' gate n (h gate n hn)

section Gates

variable (g) (x y : Signal)

theorem gateNodes_intern (gate : Node) :
    (g.intern gate).2.gateNodes[gate]? = some (g.intern gate).1 := by
  unfold intern
  cases hknown : g.gateNodes[gate]? with
  | some n => exact hknown
  | none => exact Std.HashMap.getElem?_insert_self

theorem knownIn_intern (gate : Node) : g.KnownIn (g.intern gate).2 := by
  unfold intern
  cases hknown : g.gateNodes[gate]? with
  | some n => exact .refl g
  | none =>
    intro gate' n hn
    have hne : gate ≠ gate' := by
      rintro rfl
      cases hknown.symm.trans hn
    rwa [Std.HashMap.getElem?_insert, if_neg (by simpa using hne)]

theorem intern_again {gate : Node} (h : (g.intern gate).2.KnownIn g') :
    g'.intern gate = ((g.intern gate).1, g') :=
  g'.intern_fst_of_known (h _ _ (g.gateNodes_intern gate))

theorem knownIn_addAnd : g.KnownIn (g.addAnd x y).2 := by
  unfold addAnd
  dsimp only
  split
  · exact .refl g
  · exact g.knownIn_intern _

theorem knownIn_addXor : g.KnownIn (g.addXor x y).2 := by
  unfold addXor
  dsimp only
  split
  · exact .refl g
  · exact g.knownIn_intern _

variable {x y}

theorem addAnd_again (h : (g.addAnd x y).2.KnownIn g') :
    g'.addAnd x y = ((g.addAnd x y).1, g') := by
  unfold addAnd at h ⊢
  dsimp only at h ⊢
  split at h
  · rfl
  · rw [g.intern_again h]

theorem addXor_again (h : (g.addXor x y).2.KnownIn g') :
    g'.addXor x y = ((g.addXor x y).1, g') := by
  unfold addXor at h ⊢
  dsimp only at h ⊢
  split at h
  · rfl
  · rw [g.intern_again h]

end Gates

end Xag

namespace IndexList

theorem knownIn_addInputs (n : Nat) (signals : Array Signal) (g : Xag) :
    g.KnownIn (addInputs n signals g).2 := by
  induction n generalizing signals g with
  | zero => exact .refl g
  | succ n ih =>
    have hinput : g.KnownIn g.addInput.2 := .refl g
    exact hinput.trans (ih _ g.addInput.2)

theorem knownIn_addGate (g : Xag) (pair : UInt32 × UInt32) (x y : Signal) :
    g.KnownIn (addGate g pair x y).2 := by
  unfold addGate
  split
  · exact g.knownIn_addXor x y
  · exact g.knownIn_addAnd x y

theorem knownIn_buildGates (position : Nat) (gates : List (UInt32 × UInt32))
    (signals : Array Signal) (g : Xag) :
    g.KnownIn (buildGates position gates signals g).2 :=
  buildGates_keeps Xag.KnownIn.refl Xag.KnownIn.trans knownIn_addGate position gates signals g

theorem knownIn_addOutputs (outputs : List Signal) (g : Xag) :
    g.KnownIn (outputs.foldl Xag.addOutput g) := by
  induction outputs generalizing g with
  | nil => exact .refl g
  | cons s rest ih =>
    have houtput : g.KnownIn (g.addOutput s) := .refl g
    exact houtput.trans (ih (g.addOutput s))

theorem knownIn_decodeInto (l : IndexList) (g : Xag) : g.KnownIn (l.decodeInto g).2 := by
  have hgates := (knownIn_addInputs l.inputs #[.constant false] g).trans
    (knownIn_buildGates 1 l.gates (addInputs l.inputs #[.constant false] g).1 _)
  unfold decodeInto
  dsimp only
  split
  · next hrun => rwa [hrun] at hgates
  · next hrun =>
    rw [hrun] at hgates
    split
    · exact hgates
    · exact hgates.trans (knownIn_addOutputs _ _)

end IndexList

namespace Xag

variable {g g' g₁ : Xag} {x y r : Signal} {kind : GateKind}

theorem knownIn_request? (h : kind.request? g x y = .ok (r, g₁)) : g.KnownIn g₁ := by
  cases kind with
  | and =>
    obtain ⟨-, rfl⟩ := Prod.mk.inj (Except.ok.inj h)
    exact g.knownIn_addAnd x y
  | xor =>
    obtain ⟨-, rfl⟩ := Prod.mk.inj (Except.ok.inj h)
    exact g.knownIn_addXor x y

theorem request?_again (h : kind.request? g x y = .ok (r, g₁)) (hknown : g₁.KnownIn g') :
    kind.request? g' x y = .ok (r, g') := by
  cases kind with
  | and =>
    obtain ⟨rfl, rfl⟩ := Prod.mk.inj (Except.ok.inj h)
    exact congrArg Except.ok (g.addAnd_again hknown)
  | xor =>
    obtain ⟨rfl, rfl⟩ := Prod.mk.inj (Except.ok.inj h)
    exact congrArg Except.ok (g.addXor_again hknown)

/-- A constructor, decoding or a query makes the graph the second one. -/
inductive Step : Xag → Xag → Prop
  | addInput (g : Xag) : Step g g.addInput.2
  | addAnd (g : Xag) (x y : Signal) : Step g (g.addAnd x y).2
  | addXor (g : Xag) (x y : Signal) : Step g (g.addXor x y).2
  | addOutput (g : Xag) (x : Signal) : Step g (g.addOutput x)
  | decodeInto (g : Xag) (l : IndexList) : Step g (l.decodeInto g).2
  | query {g : Xag} {e : Engine} {function : Table} {leaves : List Signal}
      {accept : List Signal → Bool} {outcome : Engine.Outcome Xag}
      (hquery : e.query function leaves accept g = .ok outcome) : Step g outcome.target

def LeadsTo : Xag → Xag → Prop := Relation.ReflTransGen Step

theorem Step.knownIn (h : Step g g') : g.KnownIn g' := by
  cases h with
  | addInput => exact .refl g
  | addAnd x y => exact g.knownIn_addAnd x y
  | addXor x y => exact g.knownIn_addXor x y
  | addOutput x => exact .refl g
  | decodeInto l => exact l.knownIn_decodeInto g
  | query hquery =>
    have hkeeps : ∀ (kind : GateKind) (h : Xag) (x y s : Signal) (h' : Xag),
        g.KnownIn h → kind.request? h x y = .ok (s, h') → g.KnownIn h' :=
      fun _ _ _ _ _ _ hknown hrequest => hknown.trans (knownIn_request? hrequest)
    exact Engine.query_keeps hkeeps hquery (.refl g)

theorem LeadsTo.knownIn (h : g.LeadsTo g') : g.KnownIn g' := by
  induction h with
  | refl => exact .refl g
  | tail _ hstep ih => exact ih.trans hstep.knownIn

end Xag
end LogicResynthesis
