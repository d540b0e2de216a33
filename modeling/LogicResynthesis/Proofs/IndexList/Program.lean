import LogicResynthesis.Proofs.IndexList.Encoding

/-!
# Programs for an encoder

A program adds gates and outputs. Their operands are the constant, inputs and
earlier gates, perhaps complemented, and the two operands of an XOR differ. Each
gate and each output denotes a function of the inputs. Running the program
collects an index list, and what this is decoded to has these functions.
-/

namespace LogicResynthesis

namespace Literal

/-- The literal, or its complement. -/
def complementIf (w : UInt32) (v : Bool) : UInt32 := if v then w ^^^ 1 else w

theorem node_complementIf (w : UInt32) (v : Bool) : node (complementIf w v) = node w := by
  cases v with
  | false => rfl
  | true =>
    rw [complementIf, if_pos rfl, node, UInt32.toNat_xor, Nat.xor_div_two]
    exact Nat.xor_zero _

theorem negated_complementIf (w : UInt32) (v : Bool) :
    negated (complementIf w v) = (negated w ^^ v) := by
  have hbit : ∀ u : UInt32, negated u = u.toNat.testBit 0 := fun u => (Nat.testBit_zero _).symm
  cases v with
  | false => exact (Bool.xor_false _).symm
  | true =>
    rw [complementIf, if_pos rfl, hbit, hbit, UInt32.toNat_xor, Nat.testBit_xor]
    rfl

theorem of_toNat {w : UInt32} {n : Nat} (h : w.toNat = 2 * n) : node w = n ∧ negated w = false := by
  constructor
  · rw [node, h]
    omega
  · rw [negated, h]
    simp

end Literal

namespace IndexList

theorem GatesDefined.concat {defined : Nat} {gates : List (UInt32 × UInt32)}
    {p : UInt32 × UInt32} (h : GatesDefined defined gates)
    (hleft : Literal.node p.1 < defined + gates.length)
    (hright : Literal.node p.2 < defined + gates.length) : GatesDefined defined (gates ++ [p]) := by
  intro j q hq
  rw [List.getElem?_append] at hq
  split_ifs at hq with hj
  · exact h j q hq
  · obtain ⟨hlast, hsame⟩ := List.getElem?_eq_some_iff.mp hq
    rw [List.length_singleton] at hlast
    have hj' : j = gates.length := by omega
    simp only [List.getElem_singleton] at hsame
    rw [← hsame, hj']
    exact ⟨hleft, hright⟩

theorem gateValues_concat (values : Array Bool) (gates : List (UInt32 × UInt32))
    (p : UInt32 × UInt32) :
    gateValues values (gates ++ [p]) =
      (gateValues values gates).push (gateValue (gateValues values gates) p) := by
  simp [gateValues]

theorem literalValue_push {values : Array Bool} {w : UInt32} (hw : Literal.node w < values.size)
    (v : Bool) : literalValue (values.push v) w = literalValue values w := by
  simp [literalValue, Array.getD_eq_getD_getElem?, Array.getElem?_push_lt hw, hw]

section Pairs

variable (values : Array Bool) {v w : UInt32}

theorem gateValue_min_max :
    gateValue values (min v w, max v w) = (literalValue values v && literalValue values w) := by
  by_cases h : w < v
  · obtain ⟨hmax, hmin⟩ := Encoder.max_min_of_lt h
    have hnot : ¬v < w := UInt32.not_lt.mpr (UInt32.le_of_lt h)
    rw [hmax, hmin, gateValue, gateOp, if_neg hnot, Bool.and_comm]
  · obtain ⟨hmin, hmax⟩ := Encoder.min_max_of_not_lt h
    rw [hmax, hmin, gateValue, gateOp, if_neg h]

theorem gateValue_max_min (hne : v ≠ w) :
    gateValue values (max v w, min v w) = (literalValue values v ^^ literalValue values w) := by
  by_cases h : w < v
  · obtain ⟨hmax, hmin⟩ := Encoder.max_min_of_lt h
    rw [hmax, hmin, gateValue, gateOp, if_pos h]
  · obtain ⟨hmin, hmax⟩ := Encoder.min_max_of_not_lt h
    have hlt : v < w := UInt32.lt_of_le_of_ne (UInt32.not_lt.mp h) hne
    rw [hmax, hmin, gateValue, gateOp, if_pos hlt, Bool.xor_comm]

end Pairs

end IndexList

namespace Encoder

open IndexList (GatesDefined gateValue gateValues literalValue literalSignal)

/-- What an operand stands for: the constant, an input, or a gate by its place among the gates. -/
inductive Source
  | constant
  | input (i : Nat)
  | gate (j : Nat)
deriving DecidableEq, Repr

structure Operand where
  source : Source
  negated : Bool
deriving DecidableEq, Repr

/-- A step of a program. -/
inductive Op
  | and (x y : Operand)
  | xor (x y : Operand)
  | output (x : Operand)
deriving DecidableEq, Repr

def Op.isGate : Op → Bool
  | .output _ => false
  | _ => true

def gateCount (program : List Op) : Nat := program.countP (·.isGate)

def outputCount (program : List Op) : Nat := program.countP (!·.isGate)

section Scope

variable (inputs gates : Nat)

/-- The operand stands for something that is there after so many gates. -/
def Operand.InScope (x : Operand) : Prop :=
  match x.source with
  | .constant => True
  | .input i => i < inputs
  | .gate j => j < gates

/-- The operands are there, and those of an XOR differ. -/
def Op.Allowed : Op → Prop
  | .and x y => x.InScope inputs gates ∧ y.InScope inputs gates
  | .xor x y => x.InScope inputs gates ∧ y.InScope inputs gates ∧ x ≠ y
  | .output x => x.InScope inputs gates

end Scope

/-- Every step is allowed after the gates that come before it. -/
def Allowed (inputs : Nat) : Nat → List Op → Prop
  | _, [] => True
  | gates, op :: rest => op.Allowed inputs gates ∧ Allowed inputs (gates + gateCount [op]) rest

/-- The values of the gates and of the outputs of a program. -/
structure Values where
  gates : Array Bool
  outputs : Array Bool

section Denotation

variable (a : Nat → Bool)

/-- The value of an operand, given those of the gates, when input `i` has the value `a i`. -/
def Operand.value (gates : Array Bool) (x : Operand) : Bool :=
  (match x.source with
    | .constant => false
    | .input i => a i
    | .gate j => gates.getD j false) ^^ x.negated

def Values.step (v : Values) : Op → Values
  | .and x y => { v with gates := v.gates.push (x.value a v.gates && y.value a v.gates) }
  | .xor x y => { v with gates := v.gates.push (x.value a v.gates ^^ y.value a v.gates) }
  | .output x => { v with outputs := v.outputs.push (x.value a v.gates) }

/-- What a program denotes. -/
def values (program : List Op) : Values := program.foldl (Values.step a) ⟨#[], #[]⟩

end Denotation

/-- An encoder with the literals that it has handed out for gates. -/
structure Session where
  encoder : Encoder
  literals : Array UInt32

namespace Session

def start (e : Encoder) : Session := ⟨e, #[]⟩

variable (s : Session)

def sourceLiteral? : Source → Except Fault UInt32
  | .constant => .ok 0
  | .input i => s.encoder.inputLiteral? i
  | .gate j =>
    match s.literals[j]? with
    | some w => .ok w
    | none => .error (.noSuchNode j s.literals.size)

def literal? (x : Operand) : Except Fault UInt32 :=
  (s.sourceLiteral? x.source).map (Literal.complementIf · x.negated)

def answer (r : UInt32 × Encoder) : Session := ⟨r.2, s.literals.push r.1⟩

def step : Op → Except Fault Session
  | .and x y => do return s.answer (s.encoder.addAnd (← s.literal? x) (← s.literal? y))
  | .xor x y => do return s.answer (← s.encoder.addXor? (← s.literal? x) (← s.literal? y))
  | .output x => do return { s with encoder := s.encoder.addOutput (← s.literal? x) }

def run (program : List Op) : Except Fault Session := program.foldlM step s

end Session

/-- The node, in a list over so many inputs, of what an operand stands for. -/
def Source.node (inputs : Nat) : Source → Nat
  | .constant => 0
  | .input i => 1 + i
  | .gate j => 1 + inputs + j

section Operands

variable {inputs gates : Nat} {x y : Operand}

theorem Operand.InScope.node_lt (hx : x.InScope inputs gates) :
    x.source.node inputs < 1 + inputs + gates := by
  obtain ⟨source, negated⟩ := x
  cases source <;> simp only [Operand.InScope, Source.node] at hx ⊢ <;> omega

theorem Operand.InScope.source_eq (hx : x.InScope inputs gates) (hy : y.InScope inputs gates)
    (h : x.source.node inputs = y.source.node inputs) : x.source = y.source := by
  obtain ⟨source, negated⟩ := x
  obtain ⟨source', negated'⟩ := y
  cases source <;> cases source' <;>
    simp only [Operand.InScope, Source.node, Source.input.injEq, Source.gate.injEq,
      reduceCtorEq] at hx hy h ⊢ <;> omega

/-- The values of the nodes of a list, given those of its gates. -/
def allValues (inputs : Nat) (a : Nat → Bool) (gates : Array Bool) : Array Bool :=
  (false :: (List.range inputs).map a).toArray ++ gates

theorem size_allValues (a : Nat → Bool) (gates : Array Bool) :
    (allValues inputs a gates).size = 1 + inputs + gates.size := by
  simp [allValues]
  omega

theorem Operand.InScope.literalValue_eq {values : Array Bool} (hx : x.InScope inputs values.size)
    {w : UInt32} (hnode : Literal.node w = x.source.node inputs)
    (hnegated : Literal.negated w = x.negated) (a : Nat → Bool) :
    literalValue (allValues inputs a values) w = x.value a values := by
  obtain ⟨source, negated⟩ := x
  rw [literalValue, hnode, hnegated, Operand.value, Array.getD_eq_getD_getElem?, allValues]
  congr 1
  cases source with
  | constant =>
    rw [Array.getElem?_append_left (by simp [Source.node])]
    rfl
  | input i =>
    have hi : i < inputs := hx
    rw [Array.getElem?_append_left (by simp [Source.node]; omega)]
    simp [Source.node, hi, Nat.add_comm 1 i]
  | gate j =>
    have hbase : (false :: (List.range inputs).map a).toArray.size = 1 + inputs := by
      simp [Nat.add_comm]
    rw [Source.node, Array.getElem?_append_right (by omega), hbase, Nat.add_sub_cancel_left,
      ← Array.getD_eq_getD_getElem?]

end Operands

theorem gateCount_append (program later : List Op) :
    gateCount (program ++ later) = gateCount program + gateCount later :=
  List.countP_append

theorem values_concat (a : Nat → Bool) (program : List Op) (op : Op) :
    values a (program ++ [op]) = (values a program).step a op := by
  simp [values]

theorem size_values (a : Nat → Bool) (program : List Op) :
    (values a program).gates.size = gateCount program := by
  induction program using List.reverseRecOn with
  | nil => rfl
  | append_singleton program op ih =>
    rw [values_concat, gateCount_append, ← ih]
    cases op <;> simp [Values.step, gateCount, Op.isGate]

/-- After a program the session has collected literals that are defined, and that have the values of
the program's gates and outputs in the order of the list. -/
structure Encodes (inputs : Nat) (program : List Op) (s : Session) : Prop where
  inputs_eq : s.encoder.inputs = inputs
  gates_size : s.encoder.gates.size = gateCount program
  outputs_size : s.encoder.outputs.size = outputCount program
  literals_size : s.literals.size = gateCount program
  literals_eq : ∀ (j : Nat) (w : UInt32), s.literals[j]? = some w → w.toNat = 2 * (1 + inputs + j)
  gates_defined : GatesDefined (1 + inputs) s.encoder.gates.toList
  outputs_defined : ∀ w ∈ s.encoder.outputs, Literal.node w < 1 + inputs + gateCount program
  gates_value : ∀ a, gateValues (allValues inputs a #[]) s.encoder.gates.toList =
    allValues inputs a (values a program).gates
  outputs_value : ∀ a, s.encoder.outputs.map
    (literalValue (allValues inputs a (values a program).gates)) = (values a program).outputs

/-- The word is a literal of what the operand stands for. -/
structure IsLiteral (inputs : Nat) (x : Operand) (w : UInt32) : Prop where
  node : Literal.node w = x.source.node inputs
  negated : Literal.negated w = x.negated

theorem IsLiteral.operand_eq {inputs gates : Nat} {x y : Operand} {w : UInt32}
    (h : IsLiteral inputs x w) (hx : x.InScope inputs gates) (hy : y.InScope inputs gates)
    (h' : IsLiteral inputs y w) : x = y := by
  have hsource := hx.source_eq hy (h.node.symm.trans h'.node)
  have hnegated := h.negated.symm.trans h'.negated
  obtain ⟨source, negated⟩ := x
  obtain rfl : source = y.source := hsource
  obtain rfl : negated = y.negated := hnegated
  rfl

theorem node_lt_of_pair {v w : UInt32} {n : Nat} (hv : Literal.node v < n)
    (hw : Literal.node w < n) : Literal.node (min v w) < n ∧ Literal.node (max v w) < n := by
  by_cases h : w < v
  · obtain ⟨hmax, hmin⟩ := max_min_of_lt h
    rw [hmin, hmax]
    exact ⟨hw, hv⟩
  · obtain ⟨hmin, hmax⟩ := min_max_of_not_lt h
    rw [hmin, hmax]
    exact ⟨hv, hw⟩

namespace Encodes

variable {inputs : Nat} {program : List Op} {s : Session}

theorem start (hinputs : inputs < 256) :
    Encodes inputs [] (.start ⟨inputs, #[], #[], hinputs⟩) where
  inputs_eq := rfl
  gates_size := rfl
  outputs_size := rfl
  literals_size := rfl
  literals_eq := by simp [Session.start]
  gates_defined := by simp [Session.start, GatesDefined]
  outputs_defined := by simp [Session.start]
  gates_value _ := rfl
  outputs_value _ := Array.map_empty

theorem sourceLiteral? (h : Encodes inputs program s) {x : Operand}
    (hx : x.InScope inputs (gateCount program)) :
    ∃ w, s.sourceLiteral? x.source = .ok w ∧ w.toNat = 2 * x.source.node inputs := by
  obtain ⟨source, negated⟩ := x
  cases source with
  | constant => exact ⟨0, rfl, rfl⟩
  | input i =>
    have hi : i < s.encoder.inputs := h.inputs_eq ▸ hx
    have hinputs := s.encoder.inputs_lt
    refine ⟨UInt32.ofNat (2 * (i + 1)), if_pos hi, ?_⟩
    rw [UInt32.toNat_ofNat', Source.node]
    omega
  | gate j =>
    have hj : j < s.literals.size := h.literals_size ▸ hx
    have hread : s.literals[j]? = some s.literals[j] := Array.getElem?_eq_getElem hj
    refine ⟨s.literals[j], ?_, h.literals_eq j _ hread⟩
    rw [Session.sourceLiteral?, hread]

theorem literal? (h : Encodes inputs program s) {x : Operand}
    (hx : x.InScope inputs (gateCount program)) :
    ∃ w, s.literal? x = .ok w ∧ IsLiteral inputs x w := by
  obtain ⟨w, hw, heven⟩ := h.sourceLiteral? hx
  obtain ⟨hnode, hplain⟩ := Literal.of_toNat heven
  refine ⟨Literal.complementIf w x.negated, ?_, ?_, ?_⟩
  · rw [Session.literal?, hw]
    rfl
  · rw [Literal.node_complementIf, hnode]
  · rw [Literal.negated_complementIf, hplain, Bool.false_xor]

theorem literalValue_eq {x : Operand} (hx : x.InScope inputs (gateCount program)) {w : UInt32}
    (hw : IsLiteral inputs x w) (a : Nat → Bool) :
    literalValue (allValues inputs a (values a program).gates) w =
      x.value a (values a program).gates := by
  rw [← size_values a program] at hx
  exact hx.literalValue_eq hw.node hw.negated a

theorem addGate (h : Encodes inputs program s) {op : Op} {p : UInt32 × UInt32}
    (hcount : gateCount program < 65536) (hop : op.isGate = true)
    (hleft : Literal.node p.1 < 1 + inputs + gateCount program)
    (hright : Literal.node p.2 < 1 + inputs + gateCount program)
    (hvalue : ∀ a, (values a program).step a op =
      ⟨(values a program).gates.push (gateValue (allValues inputs a (values a program).gates) p),
        (values a program).outputs⟩) :
    Encodes inputs (program ++ [op])
      (s.answer (s.encoder.nextLiteral,
        { s.encoder with gates := s.encoder.gates.push p })) := by
  have hgates : gateCount (program ++ [op]) = gateCount program + 1 := by
    simp [gateCount, hop]
  have houtputs : outputCount (program ++ [op]) = outputCount program := by
    simp [outputCount, hop]
  have hlength : s.encoder.gates.toList.length = gateCount program := by
    rw [Array.length_toList, h.gates_size]
  have hnext : s.encoder.nextLiteral.toNat = 2 * (1 + inputs + gateCount program) := by
    rw [s.encoder.toNat_nextLiteral (by rw [h.gates_size]; exact hcount), h.inputs_eq, h.gates_size]
  constructor
  · exact h.inputs_eq
  · rw [hgates, ← h.gates_size]
    exact Array.size_push _
  · rw [houtputs]
    exact h.outputs_size
  · rw [hgates, ← h.literals_size]
    exact Array.size_push _
  · intro j w hw
    rcases getElem?_push_or hw with hw | ⟨rfl, rfl⟩
    · exact h.literals_eq j w hw
    · rw [h.literals_size]
      exact hnext
  · have hdefined := h.gates_defined.concat (by rwa [hlength]) (by rwa [hlength])
    rwa [← Array.toList_push] at hdefined
  · intro w hw
    have hbefore := h.outputs_defined w hw
    omega
  · intro a
    have hbefore := h.gates_value a
    rw [values_concat, hvalue a]
    dsimp only [Session.answer]
    rw [Array.toList_push, IndexList.gateValues_concat, hbefore]
    exact Array.push_append
  · intro a
    rw [values_concat, hvalue a, ← h.outputs_value a]
    apply Array.map_congr_left
    intro w hw
    have hdefined := h.outputs_defined w hw
    rw [← size_values a program, ← size_allValues a] at hdefined
    rw [← IndexList.literalValue_push hdefined, allValues, allValues, Array.push_append]

theorem addOutput (h : Encodes inputs program s) {x : Operand}
    (hx : x.InScope inputs (gateCount program)) {w : UInt32} (hw : IsLiteral inputs x w) :
    Encodes inputs (program ++ [.output x]) { s with encoder := s.encoder.addOutput w } := by
  have hgates : gateCount (program ++ [.output x]) = gateCount program := by
    simp [gateCount, Op.isGate]
  have houtputs : outputCount (program ++ [.output x]) = outputCount program + 1 := by
    simp [outputCount, Op.isGate]
  constructor
  · exact h.inputs_eq
  · rw [hgates]
    exact h.gates_size
  · rw [houtputs, ← h.outputs_size]
    exact Array.size_push _
  · rw [hgates]
    exact h.literals_size
  · exact h.literals_eq
  · exact h.gates_defined
  · intro v hv
    rw [hgates]
    rcases Array.mem_push.mp hv with hv | rfl
    · exact h.outputs_defined v hv
    · rw [hw.node]
      exact hx.node_lt
  · intro a
    rw [values_concat]
    exact h.gates_value a
  · intro a
    rw [values_concat]
    dsimp only [Encoder.addOutput, Values.step]
    rw [Array.map_push, h.outputs_value a, literalValue_eq hx hw a]

theorem step (h : Encodes inputs program s) {op : Op}
    (hop : op.Allowed inputs (gateCount program)) (hcount : gateCount program < 65536) :
    ∃ s', s.step op = .ok s' ∧ Encodes inputs (program ++ [op]) s' := by
  cases op with
  | and x y =>
    obtain ⟨hx, hy⟩ := hop
    obtain ⟨v, hv, hisv⟩ := h.literal? hx
    obtain ⟨w, hw, hisw⟩ := h.literal? hy
    obtain ⟨hmin, hmax⟩ := node_lt_of_pair (hisv.node ▸ hx.node_lt) (hisw.node ▸ hy.node_lt)
    refine ⟨s.answer (s.encoder.addAnd v w), ?_, h.addGate hcount rfl hmin hmax fun a => ?_⟩
    · rw [Session.step, hv, hw]
      rfl
    · rw [IndexList.gateValue_min_max, literalValue_eq hx hisv, literalValue_eq hy hisw]
      rfl
  | xor x y =>
    obtain ⟨hx, hy, hne⟩ := hop
    obtain ⟨v, hv, hisv⟩ := h.literal? hx
    obtain ⟨w, hw, hisw⟩ := h.literal? hy
    obtain ⟨hmin, hmax⟩ := node_lt_of_pair (hisv.node ▸ hx.node_lt) (hisw.node ▸ hy.node_lt)
    have hdiffer : v ≠ w := by
      rintro rfl
      exact hne (hisv.operand_eq hx hy hisw)
    refine ⟨_, ?_, h.addGate (p := (max v w, min v w)) hcount rfl hmax hmin fun a => ?_⟩
    · rw [Session.step, hv, hw]
      simp only [bind, Except.bind, addXor?, if_neg hdiffer]
      rfl
    · rw [IndexList.gateValue_max_min _ hdiffer, literalValue_eq hx hisv, literalValue_eq hy hisw]
      rfl
  | output x =>
    obtain ⟨w, hw, hisw⟩ := h.literal? hop
    refine ⟨_, ?_, h.addOutput hop hisw⟩
    rw [Session.step, hw]
    rfl

theorem run (h : Encodes inputs program s) {rest : List Op}
    (hallowed : Allowed inputs (gateCount program) rest)
    (hcount : gateCount program + gateCount rest ≤ 65535) :
    ∃ s', s.run rest = .ok s' ∧ Encodes inputs (program ++ rest) s' := by
  induction rest generalizing program s with
  | nil => exact ⟨s, rfl, by rwa [List.append_nil]⟩
  | cons op rest ih =>
    obtain ⟨hop, hrest⟩ := hallowed
    have hsplit : gateCount (op :: rest) = gateCount [op] + gateCount rest :=
      gateCount_append [op] rest
    obtain ⟨s₁, hstep, h₁⟩ := h.step hop (by omega)
    rw [← gateCount_append] at hrest
    obtain ⟨s', hrun, h'⟩ := ih h₁ hrest (by rw [gateCount_append]; omega)
    rw [List.append_assoc, List.singleton_append] at h'
    refine ⟨s', ?_, h'⟩
    rw [Session.run, List.foldlM_cons, hstep]
    exact hrun

theorem build? (h : Encodes inputs program s) (hgates : gateCount program ≤ 65535)
    (houtputs : outputCount program ≤ 255) :
    ∃ l, s.encoder.build? = .ok l ∧ l.inputs = inputs ∧ l.gates = s.encoder.gates.toList ∧
      l.outputs = s.encoder.outputs.toList := by
  have hfew : s.encoder.gates.size < 65536 := by
    rw [h.gates_size]
    omega
  have hfew' : s.encoder.outputs.size < 256 := by
    rw [h.outputs_size]
    omega
  rw [Encoder.build?, dif_pos hfew, dif_pos hfew']
  exact ⟨_, rfl, h.inputs_eq, rfl, rfl⟩

theorem decodes (h : Encodes inputs program s) {l : IndexList} (hinputs : l.inputs = inputs)
    (hgates : l.gates = s.encoder.gates.toList) (houtputs : l.outputs = s.encoder.outputs.toList)
    {g : Xag} (hg : g.Reachable) :
    ∃ signals g', l.decodeInto g = (.ok signals, g') ∧ l.Decodes g signals g' ∧
      ∀ a,
        s.literals.map (fun w => g'.value a (literalSignal signals w)) =
          (values (fun i => a (g.inputs.size + i)) program).gates ∧
        s.encoder.outputs.map (fun w => g'.value a (literalSignal signals w)) =
          (values (fun i => a (g.inputs.size + i)) program).outputs := by
  have hlength : l.gates.length = gateCount program := by
    rw [hgates, Array.length_toList, h.gates_size]
  have hdefined : l.Defined := by
    constructor
    · rw [hinputs, hgates]
      exact h.gates_defined
    · intro w hw
      rw [hinputs, hlength]
      exact h.outputs_defined w (by rwa [houtputs, Array.mem_toList_iff] at hw)
  obtain ⟨signals, g', hdecode, hdecodes⟩ := hdefined.decodes hg
  have hsize : signals.size = 1 + inputs + gateCount program := by
    rw [hdecodes.size, hinputs, hlength]
  refine ⟨signals, g', hdecode, hdecodes, fun a => ?_⟩
  have hvalues : signals.map (g'.value a) = allValues inputs (fun i => a (g.inputs.size + i))
      (values (fun i => a (g.inputs.size + i)) program).gates := by
    rw [hdecodes.value a, IndexList.nodeValues, hinputs, hgates, ← h.gates_value, allValues,
      Array.append_empty]
  constructor
  · apply Array.ext_getElem?
    intro j
    rw [Array.getElem?_map]
    cases hread : s.literals[j]? with
    | none =>
      have hj := Array.getElem?_eq_none_iff.mp hread
      rw [h.literals_size, ← size_values] at hj
      exact (Array.getElem?_eq_none hj).symm
    | some w =>
      have hj := (Array.getElem?_eq_some_iff.mp hread).1
      rw [h.literals_size] at hj
      obtain ⟨hnode, hplain⟩ := Literal.of_toNat (h.literals_eq j w hread)
      have hgate : IsLiteral inputs ⟨.gate j, false⟩ w := ⟨hnode, hplain⟩
      have hscope : Operand.InScope inputs (gateCount program) ⟨.gate j, false⟩ := hj
      have hvalue := literalValue_eq hscope hgate fun i => a (g.inputs.size + i)
      have hw : Literal.node w < signals.size := by omega
      rw [← hvalues, IndexList.literalValue_map hw] at hvalue
      rw [← size_values] at hj
      rw [Option.map_some, hvalue, Array.getElem?_eq_getElem hj, Operand.value]
      simp [hj]
  · rw [← h.outputs_value]
    apply Array.map_congr_left
    intro w hw
    rw [← hvalues]
    exact (IndexList.literalValue_map (hsize ▸ h.outputs_defined w hw) a).symm

end Encodes

/-- A program of allowed steps, with no more gates and outputs than there is room for, is encoded
without a fault. Its words are read back, with as many inputs, gates and outputs. In every graph
they are decoded to signals of its functions: the literal of a gate to one of the gate, and the new
outputs to those of the program in order. -/
theorem program_decodes {inputs : Nat} (hinputs : inputs ≤ 255) {program : List Op}
    (hallowed : Allowed inputs 0 program) (hgates : gateCount program ≤ 65535)
    (houtputs : outputCount program ≤ 255) :
    ∃ e s l, ofInputs? inputs = .ok e ∧ (Session.start e).run program = .ok s ∧
      s.encoder.build? = .ok l ∧ IndexList.ofWords l.toWords = .ok l ∧ l.inputs = inputs ∧
      l.gates.length = gateCount program ∧ l.outputs.length = outputCount program ∧
      s.literals.size = gateCount program ∧
      ∀ g : Xag, g.Reachable → ∃ signals g' outputs, l.decodeInto g = (.ok signals, g') ∧
        l.Decodes g signals g' ∧ g'.outputs.toList = g.outputs.toList ++ outputs ∧
        ∀ a,
          s.literals.toList.map (fun w => g'.value a (literalSignal signals w)) =
            (values (fun i => a (g.inputs.size + i)) program).gates.toList ∧
          outputs.map (g'.value a) =
            (values (fun i => a (g.inputs.size + i)) program).outputs.toList := by
  have hlt : inputs < 256 := Nat.lt_succ_of_le hinputs
  obtain ⟨s, hrun, hs⟩ := (Encodes.start hlt).run hallowed (by simpa [gateCount] using hgates)
  rw [List.nil_append] at hs
  obtain ⟨l, hbuild, hl, hlgates, hloutputs⟩ := hs.build? hgates houtputs
  refine ⟨_, s, l, dif_pos hlt, hrun, hbuild, IndexList.ofWords_toWords l, hl, ?_, ?_,
    hs.literals_size, fun g hg => ?_⟩
  · rw [hlgates, Array.length_toList, hs.gates_size]
  · rw [hloutputs, Array.length_toList, hs.outputs_size]
  · obtain ⟨signals, g', hdecode, hdecodes, hvalues⟩ := hs.decodes hl hlgates hloutputs hg
    refine ⟨signals, g', l.outputs.map (literalSignal signals), hdecode, hdecodes,
      hdecodes.outputs, fun a => ?_⟩
    obtain ⟨hgate, houtput⟩ := hvalues a
    constructor
    · rw [← hgate, Array.toList_map]
    · rw [← houtput, hloutputs, Array.toList_map, List.map_map]
      rfl

/-- A program with an AND of one literal, an XOR of complementary literals and one of constants. -/
def foldingProgram : List Op :=
  [.and ⟨.input 1, false⟩ ⟨.input 0, true⟩, .and ⟨.gate 0, false⟩ ⟨.gate 0, false⟩,
    .output ⟨.gate 1, true⟩, .xor ⟨.gate 1, false⟩ ⟨.gate 1, true⟩,
    .xor ⟨.constant, true⟩ ⟨.constant, false⟩, .output ⟨.gate 3, false⟩]

/-- All gates but the first fold when the program is decoded in a graph of one input. -/
theorem program_decodes_folding :
    2 ≤ 255 ∧ Allowed 2 0 foldingProgram ∧ gateCount foldingProgram ≤ 65535 ∧
      outputCount foldingProgram ≤ 255 ∧
      ∃ e s l, ofInputs? 2 = .ok e ∧ (Session.start e).run foldingProgram = .ok s ∧
        s.encoder.build? = .ok l ∧ l.gates.length = 4 ∧
        ∃ signals g', l.decodeInto Xag.empty.addInput.2 = (.ok signals, g') ∧
          ∀ a, g'.outputs.toList.map (g'.value a) = [!(a 2 && !a 1), true] := by
  have hallowed : Allowed 2 0 foldingProgram := by
    simp [foldingProgram, Allowed, Op.Allowed, Operand.InScope, gateCount, Op.isGate]
  have hinputs : 2 ≤ 255 := by decide
  have hgates : gateCount foldingProgram ≤ 65535 := by decide
  have houtputs : outputCount foldingProgram ≤ 255 := by decide
  obtain ⟨e, s, l, he, hrun, hbuild, -, -, hlength, -, -, hdecode⟩ :=
    program_decodes hinputs hallowed hgates houtputs
  obtain ⟨signals, g', outputs, hdecode, -, happend, hvalues⟩ :=
    hdecode Xag.empty.addInput.2 (.addInput .empty)
  refine ⟨hinputs, hallowed, hgates, houtputs, e, s, l, he, hrun, hbuild, hlength, signals, g',
    hdecode, fun a => ?_⟩
  rw [happend]
  refine ((hvalues a).2).trans ?_
  cases ha : a 1 <;> cases hb : a 2 <;>
    simp [values, foldingProgram, Values.step, Operand.value, Xag.empty, Xag.addInput, ha, hb]

end Encoder
end LogicResynthesis
