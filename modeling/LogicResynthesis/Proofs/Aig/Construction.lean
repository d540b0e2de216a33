import LogicResynthesis.Proofs.Aig.Builder

/-!
# Programs of builder operations

A program names the operands of a step by the positions of earlier results.
Every step denotes a function of the inputs, whatever the builder makes of it.
A run of the program represents these functions under every choice of options,
so an optimising run and a plain one agree step by step.
-/

namespace LogicResynthesis
namespace Aig

/-- A step of a program; a position without a result stands for the constant `false`. -/
inductive Op
  | input (name : String)
  | constant (value : Bool)
  | and (i j : Nat)
  | or (i j : Nat)
  | xor (i j : Nat)
  | not (i : Nat)
deriving DecidableEq, Repr

def Op.newInputs : Op → Nat
  | .input _ => 1
  | _ => 0

abbrev Meaning := (Nat → Bool) → Bool

/-- What a program denotes: how many inputs it has, and the function of every step. -/
structure Behaviour where
  inputs : Nat
  results : List Meaning

namespace Behaviour

def empty : Behaviour := ⟨0, []⟩

variable (m : Behaviour)

def operand (i : Nat) : Meaning := (m.results[i]?).getD fun _ => false

def result : Op → Meaning
  | .input _ => fun a => a m.inputs
  | .constant v => fun _ => v
  | .and i j => fun a => m.operand i a && m.operand j a
  | .or i j => fun a => m.operand i a || m.operand j a
  | .xor i j => fun a => m.operand i a ^^ m.operand j a
  | .not i => fun a => !m.operand i a

def step (op : Op) : Behaviour := ⟨m.inputs + op.newInputs, m.results ++ [m.result op]⟩

end Behaviour

/-- A builder and the results of the steps so far. -/
structure Construction where
  builder : Builder
  results : List Signal

namespace Construction

def start (name : String) (folding hashing : Bool) : Construction :=
  ⟨Builder.new name folding hashing, []⟩

variable (c : Construction)

def operand (i : Nat) : Signal := (c.results[i]?).getD (.constant false)

def answer (r : Signal × Builder) : Construction := ⟨r.2, c.results ++ [r.1]⟩

def step : Op → Except Fault Construction
  | .input name => .ok (c.answer (c.builder.addInput name))
  | .constant v => .ok (c.answer (.constant v, c.builder))
  | .and i j => (c.builder.addAnd (c.operand i) (c.operand j)).map c.answer
  | .or i j => (c.builder.addOr (c.operand i) (c.operand j)).map c.answer
  | .xor i j => (c.builder.addXor (c.operand i) (c.operand j)).map c.answer
  | .not i => .ok (c.answer ((c.operand i).complement, c.builder))

def run (program : List Op) : Except Fault Construction := program.foldlM step c

/-- The value of the result of step `i`, as evaluation of the netlist finds it. -/
def value? (a : Nat → Bool) (i : Nat) : Except Fault Bool :=
  c.builder.netlist.value? a (c.operand i)

/-- The results of the construction are signals of the denoted functions. -/
structure Represents (m : Behaviour) : Prop where
  wellFormed : c.builder.WellFormed
  inputs : c.builder.netlist.inputs.size = m.inputs
  length : c.results.length = m.results.length
  has : ∀ i, c.builder.Has (c.operand i)
  value : ∀ i a, c.builder.value a (c.operand i) = m.operand i a

/-- The later construction has further results, and those before have kept their values. -/
structure GrowsTo (c' : Construction) : Prop where
  results : c.results <+: c'.results
  keeps : c.builder.Keeps c'.builder

variable {c} {m : Behaviour}

theorem GrowsTo.refl (c : Construction) : c.GrowsTo c := ⟨List.prefix_refl _, .refl _⟩

theorem GrowsTo.trans {c' c'' : Construction} (h : c.GrowsTo c') (h' : c'.GrowsTo c'') :
    c.GrowsTo c'' := ⟨h.results.trans h'.results, h.keeps.trans h'.keeps⟩

theorem represents_start (name : String) (folding hashing : Bool) :
    (start name folding hashing).Represents .empty where
  wellFormed := Builder.wellFormed_new name folding hashing
  inputs := rfl
  length := rfl
  has _ := Builder.has_constant (Builder.wellFormed_new name folding hashing) false
  value _ a := Builder.value_constant (Builder.wellFormed_new name folding hashing) a false

theorem operand_answer (hlength : c.results.length = m.results.length) (op : Op) (s : Signal)
    (b : Builder) (i : Nat) :
    (c.answer (s, b)).operand i = s ∧ (m.step op).operand i = m.result op ∨
      (c.answer (s, b)).operand i = c.operand i ∧ (m.step op).operand i = m.operand i := by
  unfold Construction.answer Construction.operand Behaviour.step Behaviour.operand
  rcases Nat.lt_trichotomy i c.results.length with hi | rfl | hi
  · right
    rw [List.getElem?_append_left hi, List.getElem?_append_left (by omega)]
    exact ⟨rfl, rfl⟩
  · left
    simp [hlength]
  · right
    have hold : c.results[i]? = none ∧ m.results[i]? = none := by
      constructor <;> apply List.getElem?_eq_none <;> omega
    have hnew : (c.results ++ [s])[i]? = none ∧ (m.results ++ [m.result op])[i]? = none := by
      constructor <;> apply List.getElem?_eq_none <;>
        rw [List.length_append, List.length_singleton] <;> omega
    rw [hold.1, hold.2, hnew.1, hnew.2]
    exact ⟨rfl, rfl⟩

theorem Represents.answer (h : c.Represents m) {op : Op} {s : Signal} {b : Builder}
    (hb : b.WellFormed) (hkeeps : c.builder.Keeps b) (hs : b.Has s)
    (hinputs : b.netlist.inputs.size = (m.step op).inputs)
    (hvalue : ∀ a, b.value a s = m.result op a) :
    (c.answer (s, b)).Represents (m.step op) ∧ c.GrowsTo (c.answer (s, b)) := by
  refine ⟨⟨hb, hinputs, ?_, ?_, ?_⟩, List.prefix_append _ _, hkeeps⟩
  · simp [Construction.answer, Behaviour.step, h.length]
  · intro i
    rcases operand_answer h.length op s b i with ⟨hi, -⟩ | ⟨hi, -⟩
    · rw [hi]
      exact hs
    · rw [hi]
      exact hkeeps.has _ (h.has i)
  · intro i a
    rcases operand_answer h.length op s b i with ⟨hi, hi'⟩ | ⟨hi, hi'⟩
    · rw [hi, hi']
      exact hvalue a
    · rw [hi, hi', ← h.value i a]
      exact hkeeps.value_eq _ (h.has i) a

theorem Represents.gate (h : c.Represents m) {op : Op} {i j : Nat} {f : Bool → Bool → Bool}
    {result : Except Fault (Signal × Builder)}
    (hresult : c.builder.Answers (c.operand i) (c.operand j) f result)
    (hinputs : (m.step op).inputs = m.inputs)
    (hop : m.result op = fun a => f (m.operand i a) (m.operand j a)) :
    ∃ c', result.map c.answer = .ok c' ∧ c'.Represents (m.step op) ∧ c.GrowsTo c' := by
  obtain ⟨s, b, hok, hb, hgrows, hs, hvalue⟩ := hresult
  refine ⟨c.answer (s, b), by rw [hok]; rfl, h.answer hb hgrows.keeps hs ?_ ?_⟩
  · rw [hgrows.inputs, h.inputs, hinputs]
  · intro a
    rw [hvalue a, hop, h.value, h.value]

theorem Represents.step (h : c.Represents m) (op : Op) :
    ∃ c', c.step op = .ok c' ∧ c'.Represents (m.step op) ∧ c.GrowsTo c' := by
  cases op with
  | input name =>
    refine ⟨_, rfl, h.answer (Builder.wellFormed_addInput _ name h.wellFormed)
      (Builder.keeps_addInput _ name) (Builder.has_addInput _ name) ?_ ?_⟩
    · simp [Behaviour.step, Op.newInputs, h.inputs]
    · intro a
      refine (Builder.value_addInput _ name a).trans ?_
      rw [h.inputs]
      rfl
  | constant v =>
    exact ⟨_, rfl, h.answer h.wellFormed (.refl _) (Builder.has_constant h.wellFormed v) h.inputs
      fun a => Builder.value_constant h.wellFormed a v⟩
  | and i j =>
    exact h.gate (Builder.addAnd_answers h.wellFormed (h.has i) (h.has j)) rfl rfl
  | or i j =>
    exact h.gate (Builder.addOr_answers h.wellFormed (h.has i) (h.has j)) rfl rfl
  | xor i j =>
    exact h.gate (Builder.addXor_answers h.wellFormed (h.has i) (h.has j)) rfl rfl
  | not i =>
    refine ⟨_, rfl, h.answer h.wellFormed (.refl _) (Builder.has_complement (h.has i)) h.inputs ?_⟩
    intro a
    rw [Builder.value_complement, h.value]
    rfl

theorem Represents.run (h : c.Represents m) (program : List Op) :
    ∃ c', c.run program = .ok c' ∧ c'.Represents (program.foldl Behaviour.step m) ∧
      c.GrowsTo c' := by
  induction program generalizing c m with
  | nil => exact ⟨c, rfl, h, .refl c⟩
  | cons op program ih =>
    obtain ⟨c₁, hstep, h₁, hgrows₁⟩ := h.step op
    obtain ⟨c₂, hrun, h₂, hgrows₂⟩ := ih h₁
    refine ⟨c₂, ?_, h₂, hgrows₁.trans hgrows₂⟩
    rw [Construction.run, List.foldlM_cons, hstep]
    exact hrun

theorem Represents.value?_eq (h : c.Represents m) (a : Nat → Bool) (i : Nat) :
    c.value? a i = .ok (m.operand i a) := by
  rw [← h.value i a]
  exact h.wellFormed.closed.value?_eq a (h.has i)

theorem GrowsTo.value?_eq {c' : Construction} {m' : Behaviour} (h : c.GrowsTo c')
    (hc : c.Represents m) (hc' : c'.Represents m') {i : Nat} (hi : i < c.results.length)
    (a : Nat → Bool) : c'.value? a i = c.value? a i := by
  have hoperand : c'.operand i = c.operand i := by
    unfold operand
    rw [List.getElem?_eq_getElem hi, h.results.getElem hi, ← List.getElem?_eq_getElem]
  rw [hc'.value?_eq, hc.value?_eq, ← hc'.value, ← hc.value, hoperand,
    h.keeps.value_eq _ (hc.has i)]

theorem length_foldl_step (program : List Op) (m : Behaviour) :
    (program.foldl Behaviour.step m).results.length = m.results.length + program.length := by
  induction program generalizing m with
  | nil => rfl
  | cons op program ih =>
    rw [List.foldl_cons, ih, Behaviour.step, List.length_append]
    simp only [List.length_cons, List.length_nil]
    omega

theorem run_append {c' : Construction} {program : List Op} (h : c.run program = .ok c')
    (more : List Op) : c.run (program ++ more) = c'.run more := by
  unfold run at h ⊢
  rw [List.foldlM_append, h]
  rfl

/-- Under all options a program runs, its steps have the denoted values, and they keep them when
it runs on. -/
theorem run_denotes (name : String) (folding hashing : Bool) (program more : List Op) :
    ∃ c c' : Construction,
      (start name folding hashing).run program = .ok c ∧
      (start name folding hashing).run (program ++ more) = .ok c' ∧
      c.results.length = program.length ∧ c.results <+: c'.results ∧
      c.builder.netlist.inputs.size = (program.foldl Behaviour.step .empty).inputs ∧
      ∀ i < program.length, ∀ a,
        c.value? a i = .ok ((program.foldl Behaviour.step .empty).operand i a) ∧
        c'.value? a i = .ok ((program.foldl Behaviour.step .empty).operand i a) := by
  obtain ⟨c, hrun, hc, -⟩ := (represents_start name folding hashing).run program
  obtain ⟨c', hrun', hc', hgrows⟩ := hc.run more
  have hlength : c.results.length = program.length := by
    rw [hc.length, length_foldl_step]
    exact Nat.zero_add _
  refine ⟨c, c', hrun, (run_append hrun more).trans hrun', hlength, hgrows.results, hc.inputs, ?_⟩
  intro i hi a
  have hvalue := hc.value?_eq a i
  exact ⟨hvalue, (hgrows.value?_eq hc hc' (hlength ▸ hi) a).trans hvalue⟩

/-- Folding and sharing do not change what a program computes: a run with them and a run without
both succeed, the results of each step have one value whatever the inputs are, and they keep it
in every longer run. -/
theorem options_agree (name : String) (folding hashing : Bool) (program more : List Op) :
    ∃ c d c' d' : Construction,
      (start name folding hashing).run program = .ok c ∧
      (start name false false).run program = .ok d ∧
      (start name folding hashing).run (program ++ more) = .ok c' ∧
      (start name false false).run (program ++ more) = .ok d' ∧
      c.results.length = program.length ∧ d.results.length = program.length ∧
      c.results <+: c'.results ∧ d.results <+: d'.results ∧
      c.builder.netlist.inputs.size = d.builder.netlist.inputs.size ∧
      ∀ i < program.length, ∀ a, ∃ v, c.value? a i = .ok v ∧ d.value? a i = .ok v ∧
        c'.value? a i = .ok v ∧ d'.value? a i = .ok v := by
  obtain ⟨c, c', hrun, hrun', hlength, hprefix, hinputs, hvalue⟩ :=
    run_denotes name folding hashing program more
  obtain ⟨d, d', hplain, hplain', hlength', hprefix', hinputs', hvalue'⟩ :=
    run_denotes name false false program more
  refine ⟨c, d, c', d', hrun, hplain, hrun', hplain', hlength, hlength', hprefix, hprefix',
    hinputs.trans hinputs'.symm, ?_⟩
  intro i hi a
  exact ⟨_, (hvalue i hi a).1, (hvalue' i hi a).1, (hvalue i hi a).2, (hvalue' i hi a).2⟩

end Construction
end Aig
end LogicResynthesis
