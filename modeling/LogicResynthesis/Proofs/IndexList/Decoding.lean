import LogicResynthesis.IndexList.Decoding
import LogicResynthesis.Proofs.Xag.Semantics

/-!
# Decoded circuits are reachable

Decoding goes through the constructors, on signals that they returned. Even if
it stops at an undefined literal, there are as many new inputs as the list
declares.
-/

namespace LogicResynthesis
namespace IndexList

/-- The signals were returned by constructors that led to the graph. -/
structure Built (signals : Array Signal) (g : Xag) : Prop where
  reachable : g.Reachable
  has : ∀ s ∈ signals, g.Has s

variable {signals : Array Signal} {g g' : Xag}

theorem Built.start (h : g.Reachable) : Built #[.constant false] g where
  reachable := h
  has s hs := by
    obtain rfl := Array.mem_singleton.mp hs
    exact Xag.has_of_getElem? h.wellFormed.zero false

theorem Built.push (h : Built signals g) (hg' : g'.Reachable)
    (hkeeps : ∀ s, g.Has s → g'.Has s) {s : Signal} (hs : g'.Has s) :
    Built (signals.push s) g' where
  reachable := hg'
  has t ht := by
    rcases Array.mem_push.mp ht with ht | rfl
    · exact hkeeps t (h.has t ht)
    · exact hs

theorem Built.addInputs (h : Built signals g) (n : Nat) :
    Built (addInputs n signals g).1 (addInputs n signals g).2 ∧
      (addInputs n signals g).2.inputs.size = g.inputs.size + n := by
  induction n generalizing signals g with
  | zero => exact ⟨h, rfl⟩
  | succ n ih =>
    have hkeeps : ∀ s, g.Has s → g.addInput.2.Has s := by
      intro s hs
      simp only [Xag.Has, Xag.addInput, Array.size_push] at hs ⊢
      omega
    have hfirst := h.push (.addInput h.reachable) hkeeps Xag.has_addInput
    obtain ⟨hbuilt, hsize⟩ := ih hfirst
    refine ⟨hbuilt, hsize.trans ?_⟩
    simp only [Xag.addInput, Array.size_push]
    omega

theorem Built.resolve (h : Built signals g) {position : Nat} {literal : UInt32} {s : Signal}
    (hs : resolve signals position literal = .ok s) : g.Has s := by
  unfold IndexList.resolve at hs
  cases hread : signals[Literal.node literal]? with
  | none =>
    rw [hread] at hs
    cases hs
  | some t =>
    rw [hread] at hs
    obtain rfl := Except.ok.inj hs
    exact h.has t (Array.mem_of_getElem? hread)

theorem Built.resolveAll (h : Built signals g) {literals : List UInt32} {position : Nat}
    {outputs : List Signal} (hs : resolveAll signals position literals = .ok outputs) :
    ∀ s ∈ outputs, g.Has s := by
  induction literals generalizing position outputs with
  | nil =>
    obtain rfl := Except.ok.inj hs
    simp
  | cons literal rest ih =>
    unfold IndexList.resolveAll at hs
    cases hfirst : IndexList.resolve signals position literal with
    | error e =>
      rw [hfirst] at hs
      cases hs
    | ok s =>
      cases hrest : IndexList.resolveAll signals (position + 1) rest with
      | error e =>
        rw [hfirst, hrest] at hs
        cases hs
      | ok later =>
        rw [hfirst, hrest] at hs
        obtain rfl := Except.ok.inj hs
        intro t ht
        rcases List.mem_cons.mp ht with rfl | ht
        · exact h.resolve hfirst
        · exact ih hrest t ht

theorem Built.addGate (h : Built signals g) (pair : UInt32 × UInt32) {x y : Signal}
    (hx : g.Has x) (hy : g.Has y) :
    Built (signals.push (addGate g pair x y).1) (addGate g pair x y).2 ∧
      (addGate g pair x y).2.inputs = g.inputs := by
  unfold IndexList.addGate
  split_ifs
  · have hadd := Xag.addXor_answers h.reachable.wellFormed hx hy
    exact ⟨h.push (.addXor h.reachable hx hy) (fun _ hs => hadd.grows.has hs) hadd.has,
      hadd.grows.inputs⟩
  · have hadd := Xag.addAnd_answers h.reachable.wellFormed hx hy
    exact ⟨h.push (.addAnd h.reachable hx hy) (fun _ hs => hadd.grows.has hs) hadd.has,
      hadd.grows.inputs⟩

theorem Built.buildGates (h : Built signals g) (position : Nat) (gates : List (UInt32 × UInt32)) :
    (buildGates position gates signals g).2.Reachable ∧
      (buildGates position gates signals g).2.inputs = g.inputs ∧
      ∀ signals', (buildGates position gates signals g).1 = .ok signals' →
        Built signals' (buildGates position gates signals g).2 := by
  induction gates generalizing position signals g with
  | nil =>
    refine ⟨h.reachable, rfl, ?_⟩
    rintro _ ⟨⟩
    exact h
  | cons pair rest ih =>
    unfold IndexList.buildGates
    cases hx : IndexList.resolve signals position pair.1 with
    | error e => exact ⟨h.reachable, rfl, by simp⟩
    | ok x =>
      cases hy : IndexList.resolve signals (position + 1) pair.2 with
      | error e => exact ⟨h.reachable, rfl, by simp⟩
      | ok y =>
        obtain ⟨hgate, hinputs⟩ := h.addGate pair (h.resolve hx) (h.resolve hy)
        obtain ⟨hreachable, hinputs', hbuilt⟩ := ih hgate (position + 2)
        exact ⟨hreachable, hinputs'.trans hinputs, hbuilt⟩

theorem buildGates_keeps {R : Xag → Xag → Prop} (hrefl : ∀ g, R g g)
    (htrans : ∀ {g g' g''}, R g g' → R g' g'' → R g g'')
    (hgate : ∀ g pair x y, R g (addGate g pair x y).2) (position : Nat)
    (gates : List (UInt32 × UInt32)) (signals : Array Signal) (g : Xag) :
    R g (buildGates position gates signals g).2 := by
  induction gates generalizing position signals g with
  | nil => exact hrefl g
  | cons pair rest ih =>
    unfold buildGates
    cases resolve signals position pair.1 with
    | error e => exact hrefl g
    | ok x =>
      cases resolve signals (position + 1) pair.2 with
      | error e => exact hrefl g
      | ok y => exact htrans (hgate g pair x y) (ih _ _ _)

theorem reachable_addOutputs (h : g.Reachable) {outputs : List Signal}
    (houtputs : ∀ s ∈ outputs, g.Has s) :
    (outputs.foldl Xag.addOutput g).Reachable ∧
      (outputs.foldl Xag.addOutput g).inputs = g.inputs := by
  induction outputs generalizing g with
  | nil => exact ⟨h, rfl⟩
  | cons s rest ih =>
    exact ih (.addOutput h (houtputs s List.mem_cons_self)) fun t ht =>
      houtputs t (List.mem_cons_of_mem _ ht)

/-- Decoding, whether it succeeds or not, leads to a reachable graph that has the inputs of the
list. -/
theorem reachable_decodeInto (h : g.Reachable) (l : IndexList) :
    (l.decodeInto g).2.Reachable ∧
      (l.decodeInto g).2.inputs.size = g.inputs.size + l.inputs := by
  obtain ⟨hstart, hsize⟩ := (Built.start h).addInputs l.inputs
  obtain ⟨hreachable, hsame, hbuilt⟩ := hstart.buildGates 1 l.gates
  unfold decodeInto
  dsimp only
  cases hgates : IndexList.buildGates 1 l.gates
      (IndexList.addInputs l.inputs #[.constant false] g).1
      (IndexList.addInputs l.inputs #[.constant false] g).2 with
  | mk result built =>
    rw [hgates] at hreachable hsame hbuilt
    cases result with
    | error e => exact ⟨hreachable, hsame ▸ hsize⟩
    | ok all =>
      dsimp only
      cases houtputs : IndexList.resolveAll all (1 + 2 * l.gates.length) l.outputs with
      | error e => exact ⟨hreachable, hsame ▸ hsize⟩
      | ok outputs =>
        obtain ⟨hreachable', hsame'⟩ :=
          reachable_addOutputs hreachable ((hbuilt all rfl).resolveAll houtputs)
        refine ⟨hreachable', ?_⟩
        rw [hsame', hsame, hsize]

end IndexList
end LogicResynthesis
