import Mathlib.Data.List.Permutation
import LogicResynthesis.Proofs.IndexList.Acceptance
import LogicResynthesis.Proofs.IndexList.Encoding

/-!
# Decoding that stops

Decoding stops at the first undefined literal. The graph that is left is the one
in which the list ends before the gate of that literal, or with its last gate if
the literal is an output. So it has the inputs of the list, and no output is added
before all of them are known.
-/

namespace LogicResynthesis
namespace IndexList

/-- The list without its outputs and without the gates after the first `k`. -/
def firstGates (l : IndexList) (k : Nat) : IndexList where
  inputs := l.inputs
  gates := l.gates.take k
  outputs := []
  inputs_lt := l.inputs_lt
  gates_lt := Nat.lt_of_le_of_lt (List.length_take_le' _ _) l.gates_lt
  outputs_lt := Nat.lt_of_le_of_lt (Nat.zero_le _) l.outputs_lt

/-- The error reports a literal of gate `k`, or an output and `k` is the number of the gates. -/
inductive StopsAt (l : IndexList) : Nat → DecodeError → Prop
  | left {k : Nat} {p : UInt32 × UInt32} (h : l.gates[k]? = some p) :
      StopsAt l k (.undefinedLiteral (1 + 2 * k) p.1 (1 + l.inputs + k))
  | right {k : Nat} {p : UInt32 × UInt32} (h : l.gates[k]? = some p) :
      StopsAt l k (.undefinedLiteral (2 + 2 * k) p.2 (1 + l.inputs + k))
  | output {i : Nat} {w : UInt32} (h : l.outputs[i]? = some w) :
      StopsAt l l.gates.length
        (.undefinedLiteral (1 + 2 * l.gates.length + i) w (1 + l.inputs + l.gates.length))

theorem StopsAt.le {l : IndexList} {k : Nat} {e : DecodeError} (h : l.StopsAt k e) :
    k ≤ l.gates.length := by
  cases h with
  | left hp => exact Nat.le_of_lt (List.getElem?_eq_some_iff.mp hp).1
  | right hp => exact Nat.le_of_lt (List.getElem?_eq_some_iff.mp hp).1
  | output _ => exact Nat.le_refl _

section Words

theorem unpairs_take (gates : List (UInt32 × UInt32)) (k : Nat) :
    unpairs (gates.take k) = (unpairs gates).take (2 * k) := by
  induction gates generalizing k with
  | nil => simp [unpairs]
  | cons p rest ih =>
    cases k with
    | zero => simp [unpairs]
    | succ k =>
      have htwo : 2 * (k + 1) = 2 * k + 1 + 1 := by omega
      simpa [unpairs, htwo] using ih k

theorem words_of_ofWords {h : UInt32} {body : List UInt32} {l : IndexList}
    (hwords : ofWords (h :: body) = .ok l) :
    l.inputs = Header.inputs h ∧ l.outputs.length = Header.outputs h ∧
      body = unpairs l.gates ++ l.outputs := by
  obtain ⟨hheader, hbody⟩ := List.cons.inj (toWords_of_ofWords hwords)
  have hnat := congrArg UInt32.toNat hheader
  rw [toNat_header l.inputs_lt l.gates_lt l.outputs_lt] at hnat
  have hinputs := l.inputs_lt
  have houtputs := l.outputs_lt
  unfold Header.inputs Header.outputs
  exact ⟨by omega, by omega, hbody.symm⟩

theorem toWords_firstGates {l : IndexList} {k : Nat} (hk : k ≤ l.gates.length) :
    (l.firstGates k).toWords =
      header l.inputs k 0 :: (unpairs l.gates ++ l.outputs).take (2 * k) := by
  have hlength : 2 * k ≤ (unpairs l.gates).length := by
    rw [length_unpairs]
    omega
  rw [List.take_append_of_le_length hlength, ← unpairs_take]
  simp [toWords, firstGates, List.length_take_of_le hk]

end Words

variable {l : IndexList} {g : Xag} {signals signals' : Array Signal} {e : DecodeError}

section Gates

theorem growsTo_addGate (g : Xag) (pair : UInt32 × UInt32) (x y : Signal) :
    g.GrowsTo (addGate g pair x y).2 := by
  unfold addGate
  split
  · exact Xag.growsTo_addXor g x y
  · exact Xag.growsTo_addAnd g x y

theorem growsTo_buildGates (position : Nat) (gates : List (UInt32 × UInt32))
    (signals : Array Signal) (g : Xag) : g.GrowsTo (buildGates position gates signals g).2 :=
  buildGates_keeps Xag.GrowsTo.refl Xag.GrowsTo.trans growsTo_addGate position gates signals g

theorem size_of_buildGates {position : Nat} {gates : List (UInt32 × UInt32)}
    (h : (buildGates position gates signals g).1 = .ok signals') :
    signals'.size = signals.size + gates.length := by
  induction gates generalizing position signals g with
  | nil =>
    obtain rfl := Except.ok.inj h
    rfl
  | cons pair rest ih =>
    unfold buildGates at h
    cases hx : resolve signals position pair.1 with
    | error e => simp [hx] at h
    | ok x =>
      cases hy : resolve signals (position + 1) pair.2 with
      | error e => simp [hx, hy] at h
      | ok y =>
        simp only [hx, hy] at h
        rw [ih h, Array.size_push, List.length_cons]
        omega

theorem buildGates_stops {position : Nat} {gates : List (UInt32 × UInt32)}
    (h : (buildGates position gates signals g).1 = .error e) :
    ∃ (k : Nat) (p : UInt32 × UInt32) (signals' : Array Signal), gates[k]? = some p ∧
      (e = .undefinedLiteral (position + 2 * k) p.1 (signals.size + k) ∨
        e = .undefinedLiteral (position + 1 + 2 * k) p.2 (signals.size + k)) ∧
      buildGates position (gates.take k) signals g =
        (.ok signals', (buildGates position gates signals g).2) := by
  induction gates generalizing position signals g with
  | nil => simp [buildGates] at h
  | cons pair rest ih =>
    unfold buildGates at h
    cases hx : resolve signals position pair.1 with
    | error e' =>
      obtain rfl : e' = e := by simpa [hx] using h
      obtain ⟨-, rfl⟩ := (resolve_eq_error_iff _ _ _ _).mp hx
      exact ⟨0, pair, signals, rfl, .inl rfl, by simp [buildGates, hx]⟩
    | ok x =>
      cases hy : resolve signals (position + 1) pair.2 with
      | error e' =>
        obtain rfl : e' = e := by simpa [hx, hy] using h
        obtain ⟨-, rfl⟩ := (resolve_eq_error_iff _ _ _ _).mp hy
        exact ⟨0, pair, signals, rfl, .inr rfl, by simp [buildGates, hx, hy]⟩
      | ok y =>
        simp only [hx, hy] at h
        obtain ⟨k, p, signals', hp, he, hrun⟩ := ih h
        refine ⟨k + 1, p, signals', hp, ?_, ?_⟩
        · have hsize : (signals.push (addGate g pair x y).1).size + k = signals.size + (k + 1) := by
            rw [Array.size_push]
            omega
          have hleft : position + 2 + 2 * k = position + 2 * (k + 1) := by omega
          have hright : position + 2 + 1 + 2 * k = position + 1 + 2 * (k + 1) := by omega
          rwa [hsize, hleft, hright] at he
        · simp only [List.take_succ_cons, buildGates, hx, hy]
          exact hrun

end Gates

section Outputs

variable {position : Nat} {ws : List UInt32}

theorem resolveAll_eq_ok {outputs : List Signal} (h : resolveAll signals position ws = .ok outputs) :
    outputs = ws.map (literalSignal signals) := by
  induction ws generalizing position outputs with
  | nil =>
    obtain rfl := Except.ok.inj h
    rfl
  | cons w rest ih =>
    rw [resolveAll, bind_eq_ok] at h
    obtain ⟨s, hs, h⟩ := h
    obtain ⟨later, hlater, h⟩ := bind_eq_ok.mp h
    obtain rfl := Except.ok.inj h
    have hw : Literal.node w < signals.size := by
      by_contra hw
      simp [resolve_eq_error (Nat.not_lt.mp hw)] at hs
    rw [resolve_eq hw] at hs
    rw [List.map_cons, ← ih hlater, Except.ok.inj hs]

theorem resolveAll_eq_error (h : resolveAll signals position ws = .error e) :
    ∃ (i : Nat) (w : UInt32), ws[i]? = some w ∧
      e = .undefinedLiteral (position + i) w signals.size := by
  have hcheck : check (fun _ => signals.size) position ws = .error e := by
    rw [← resolveAll_check fun _ _ => rfl, h]
    rfl
  obtain ⟨i, w, hfirst, he⟩ := check_eq_error_iff.mp hcheck
  exact ⟨i, w, hfirst.stands, he⟩

end Outputs

section Stages

/-- Builds the inputs and gates inside `g`. -/
def buildInside (l : IndexList) (g : Xag) : Except DecodeError (Array Signal) × Xag :=
  let start := addInputs l.inputs #[.constant false] g
  buildGates 1 l.gates start.1 start.2

variable {built : Xag}

theorem decodeInto_cases (l : IndexList) (g : Xag) :
    (∃ e built, l.buildInside g = (.error e, built) ∧ l.decodeInto g = (.error e, built)) ∨
    ∃ signals built, l.buildInside g = (.ok signals, built) ∧
      ((∃ e, resolveAll signals (1 + 2 * l.gates.length) l.outputs = .error e ∧
          l.decodeInto g = (.error e, built)) ∨
        l.decodeInto g =
          (.ok signals, (l.outputs.map (literalSignal signals)).foldl Xag.addOutput built)) := by
  cases hbuilt : l.buildInside g with
  | mk result built =>
    have hgates : buildGates 1 l.gates (addInputs l.inputs #[.constant false] g).1
        (addInputs l.inputs #[.constant false] g).2 = (result, built) := hbuilt
    cases result with
    | error e =>
      refine .inl ⟨e, built, rfl, ?_⟩
      simp only [decodeInto, hgates]
    | ok signals =>
      refine .inr ⟨signals, built, rfl, ?_⟩
      cases houtputs : resolveAll signals (1 + 2 * l.gates.length) l.outputs with
      | error e =>
        refine .inl ⟨e, rfl, ?_⟩
        simp only [decodeInto, hgates, houtputs]
      | ok outputs =>
        right
        rw [← resolveAll_eq_ok houtputs]
        simp only [decodeInto, hgates, houtputs]

theorem ports_buildInside (l : IndexList) (g : Xag) :
    (l.buildInside g).2.inputs.toList =
        g.inputs.toList ++ (List.range l.inputs).map (g.nodes.size + ·) ∧
      (l.buildInside g).2.outputs = g.outputs := by
  have hgates : (addInputs l.inputs #[.constant false] g).2.GrowsTo (l.buildInside g).2 :=
    growsTo_buildGates 1 l.gates _ _
  rw [hgates.inputs, hgates.outputs]
  exact ⟨inputs_addInputs .., outputs_addInputs ..⟩

theorem size_buildInside (h : l.buildInside g = (.ok signals, built)) :
    signals.size = 1 + l.inputs + l.gates.length := by
  rw [size_of_buildGates (congrArg Prod.fst h), size_addInputs]
  rfl

theorem decodeInto_of_outputs_nil (houtputs : l.outputs = [])
    (h : l.buildInside g = (.ok signals, built)) : l.decodeInto g = (.ok signals, built) := by
  rcases l.decodeInto_cases g with ⟨e, _, he, -⟩ | ⟨signals', built', hbuilt, hrest⟩
  · simp [h] at he
  · obtain ⟨hsignals, rfl⟩ := Prod.mk.inj (h.symm.trans hbuilt)
    obtain rfl := Except.ok.inj hsignals
    rw [houtputs] at hrest
    rcases hrest with ⟨e, he, -⟩ | hall
    · simp [resolveAll] at he
    · exact hall

end Stages

theorem decodeInto_stops (h : (l.decodeInto g).1 = .error e) :
    (∃ k signals, l.StopsAt k e ∧
        (l.firstGates k).decodeInto g = (.ok signals, (l.decodeInto g).2)) ∧
      (l.decodeInto g).2 = (l.buildInside g).2 := by
  rcases l.decodeInto_cases g with ⟨e', built, hbuilt, hrun⟩ | ⟨signals, built, hbuilt, hrest⟩
  · obtain rfl : e' = e := by simpa [hrun] using h
    obtain ⟨k, p, signals, hp, he, hprefix⟩ := buildGates_stops (congrArg Prod.fst hbuilt)
    have hfirst : (l.firstGates k).buildInside g = (.ok signals, (l.buildInside g).2) := hprefix
    have hstart : (addInputs l.inputs #[.constant false] g).1.size = 1 + l.inputs :=
      size_addInputs ..
    rw [hrun, hbuilt]
    rw [hbuilt] at hfirst
    refine ⟨⟨k, signals, ?_, decodeInto_of_outputs_nil rfl hfirst⟩, rfl⟩
    rw [hstart] at he
    rcases he with rfl | rfl
    · exact .left hp
    · exact .right hp
  · rcases hrest with ⟨e', he', hrun⟩ | hrun
    · obtain rfl : e' = e := by simpa [hrun] using h
      obtain ⟨i, w, hw, rfl⟩ := resolveAll_eq_error he'
      have hall : (l.firstGates l.gates.length).buildInside g = l.buildInside g := by
        simp [buildInside, firstGates]
      rw [hrun, hbuilt, size_buildInside hbuilt]
      exact ⟨⟨_, signals, .output hw, decodeInto_of_outputs_nil rfl (hall.trans hbuilt)⟩, rfl⟩
    · simp [hrun] at h

theorem outputs_of_decodeInto_ok (h : (l.decodeInto g).1 = .ok signals) :
    (l.decodeInto g).2.outputs.toList = g.outputs.toList ++ l.outputs.map (literalSignal signals) := by
  rcases l.decodeInto_cases g with ⟨e, _, -, hrun⟩ | ⟨signals', built, hbuilt, hrest⟩
  · simp [hrun] at h
  · rcases hrest with ⟨e, -, hrun⟩ | hrun
    · simp [hrun] at h
    · obtain rfl : signals' = signals := by simpa [hrun] using h
      have hports := (l.ports_buildInside g).2
      rw [hbuilt] at hports
      rw [hrun, (addOutputs_eq _ built).1, hports]

/-- Where decoding stops, it leaves what the words before that gate, or before the outputs, lead to
by themselves. It adds as many inputs as the header says, and either all outputs or none. -/
theorem decodeInto_whole_or_stopped {h : UInt32} {body : List UInt32} {l : IndexList}
    (hwords : ofWords (h :: body) = .ok l) (g : Xag) :
    (∀ e, (l.decodeInto g).1 = .error e →
      (∃ k signals, l.StopsAt k e ∧
        (l.firstGates k).toWords = header (Header.inputs h) k 0 :: body.take (2 * k) ∧
        (l.firstGates k).decodeInto g = (.ok signals, (l.decodeInto g).2)) ∧
      (l.decodeInto g).2.inputs.toList =
        g.inputs.toList ++ (List.range (Header.inputs h)).map (g.nodes.size + ·) ∧
      (l.decodeInto g).2.outputs = g.outputs) ∧
    ∀ signals, (l.decodeInto g).1 = .ok signals →
      (l.decodeInto g).2.outputs.toList =
        g.outputs.toList ++ l.outputs.map (literalSignal signals) ∧
      l.outputs.length = Header.outputs h := by
  obtain ⟨hinputs, houtputs, rfl⟩ := words_of_ofWords hwords
  refine ⟨fun e he => ?_, fun signals hsignals => ⟨outputs_of_decodeInto_ok hsignals, houtputs⟩⟩
  obtain ⟨⟨k, signals, hstops, hfirst⟩, hleft⟩ := decodeInto_stops he
  have hports := l.ports_buildInside g
  rw [← hleft, hinputs] at hports
  refine ⟨⟨k, signals, hstops, ?_, hfirst⟩, hports⟩
  rw [← hinputs]
  exact toWords_firstGates hstops.le

/-- The second of two outputs is undefined, so the first is not added either. The graph has an input
and an output beforehand. -/
theorem decodeInto_whole_or_stopped_output :
    ofWords [66050, 2, 4, 6, 98] =
        .ok ⟨2, [(2, 4)], [6, 98], by decide, by decide, by decide⟩ ∧
      ∃ signals built,
        decodeInto ⟨2, [(2, 4)], [6, 98], by decide, by decide, by decide⟩
          (Xag.empty.addInput.2.addOutput ⟨1, false⟩) =
            (.error (.undefinedLiteral 4 98 4), built) ∧
        decodeInto ⟨2, [(2, 4)], [], by decide, by decide, by decide⟩
          (Xag.empty.addInput.2.addOutput ⟨1, false⟩) = (.ok signals, built) ∧
        built.nodes =
          #[.constant, .input 0, .input 1, .input 2, .and ⟨2, false⟩ ⟨3, false⟩] ∧
        built.inputs = #[1, 2, 3] ∧ built.outputs = #[⟨1, false⟩] := by
  have hwords : ofWords [66050, 2, 4, 6, 98] =
      .ok ⟨2, [(2, 4)], [6, 98], by decide, by decide, by decide⟩ := rfl
  obtain ⟨hstopped, -⟩ := decodeInto_whole_or_stopped hwords
    (Xag.empty.addInput.2.addOutput ⟨1, false⟩)
  obtain ⟨⟨k, signals, hstops, -, hfirst⟩, hinputs, houtputs⟩ :=
    hstopped (.undefinedLiteral 4 98 4) rfl
  obtain rfl : k = 1 := by
    generalize he : DecodeError.undefinedLiteral 4 98 4 = e at hstops
    cases hstops with
    | left _ => injection he; omega
    | right _ => injection he; omega
    | output _ => rfl
  exact ⟨hwords, signals, _, rfl, hfirst, by cbv, Array.toList_inj.mp hinputs, houtputs⟩

end IndexList
end LogicResynthesis
