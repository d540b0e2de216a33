import LogicResynthesis.Aig.Listing
import LogicResynthesis.Text.Numeral

/-!
# Straight-line programs

A program is a list of statements. A statement gives a numbered gate the
conjunction of two operands, or an output the value of one. An operand is a
literal, an input or an earlier gate, perhaps complemented. Statements are
executed in order, on the values of the inputs by name; an operand that has no
value ends the run.

A line of text is read as a statement if it starts with two blanks. The target
stands before the last equals sign and the value behind it, so a target may be
any text.
-/

namespace LogicResynthesis
namespace Aig

/-- What an operand refers to. -/
inductive Term
  | literal (value : Bool)
  | input (name : String)
  | gate (n : Nat)
deriving DecidableEq, Repr

structure Operand where
  term : Term
  negated : Bool
deriving DecidableEq, Repr

inductive Statement
  | gate (n : Nat) (a b : Operand)
  | output (name : String) (a : Operand)
deriving DecidableEq, Repr

namespace Statement

/-- The gate that the statement gives a value. -/
def gate? : Statement → Option Nat
  | gate n _ _ => some n
  | output _ _ => none

def operands : Statement → List Operand
  | gate _ a b => [a, b]
  | output _ a => [a]

end Statement

abbrev Program := List Statement

def Program.gates (program : Program) : List Nat := program.filterMap Statement.gate?

section Run

/-- The values of the gates and outputs so far; those of the gates latest first. -/
structure RunState where
  gates : List (Nat × Bool)
  outputs : List (String × Bool)
deriving DecidableEq, Repr

variable (inputs : List (String × Bool))

def Term.value? (gates : List (Nat × Bool)) : Term → Option Bool
  | literal b => some b
  | input name => inputs.lookup name
  | gate n => gates.lookup n

def Operand.value? (gates : List (Nat × Bool)) (x : Operand) : Option Bool :=
  (x.term.value? inputs gates).map (· ^^ x.negated)

def Statement.execute? (s : RunState) : Statement → Option RunState
  | gate n a b => do
    let x ← a.value? inputs s.gates
    let y ← b.value? inputs s.gates
    return { s with gates := (n, x && y) :: s.gates }
  | output name a => do
    let x ← a.value? inputs s.gates
    return { s with outputs := s.outputs ++ [(name, x)] }

def Program.run? (program : Program) : Option RunState :=
  program.foldlM (Statement.execute? inputs) ⟨[], []⟩

variable {inputs}

theorem Operand.gate_mem_of_value {gates : List (Nat × Bool)} {x : Operand} {v : Bool} {n : Nat}
    (hvalue : x.value? inputs gates = some v) (hterm : x.term = .gate n) :
    n ∈ gates.map Prod.fst := by
  obtain ⟨w, hw, -⟩ := Option.map_eq_some_iff.mp hvalue
  rw [hterm, Term.value?, List.lookup_eq_some_iff] at hw
  obtain ⟨first, last, rfl, -⟩ := hw
  simp

namespace Statement

variable {st : Statement} {s s' : RunState}

theorem gates_of_execute (h : st.execute? inputs s = some s') :
    s'.gates.map Prod.fst = st.gate?.toList ++ s.gates.map Prod.fst := by
  cases st with
  | gate n a b =>
    obtain ⟨x, -, h⟩ := Option.bind_eq_some_iff.mp h
    obtain ⟨y, -, h⟩ := Option.bind_eq_some_iff.mp h
    obtain rfl := Option.some.inj h
    rfl
  | output name a =>
    obtain ⟨x, -, h⟩ := Option.bind_eq_some_iff.mp h
    obtain rfl := Option.some.inj h
    rfl

theorem operands_of_execute (h : st.execute? inputs s = some s') {x : Operand}
    (hx : x ∈ st.operands) : ∃ v, x.value? inputs s.gates = some v := by
  cases st with
  | gate n a b =>
    obtain ⟨v, hv, h⟩ := Option.bind_eq_some_iff.mp h
    obtain ⟨w, hw, -⟩ := Option.bind_eq_some_iff.mp h
    obtain rfl | rfl : x = a ∨ x = b := by simpa [operands] using hx
    · exact ⟨v, hv⟩
    · exact ⟨w, hw⟩
  | output name a =>
    obtain ⟨v, hv, -⟩ := Option.bind_eq_some_iff.mp h
    rw [List.mem_singleton.mp hx]
    exact ⟨v, hv⟩

end Statement

namespace Program

theorem gates_of_run {program : Program} {s s' : RunState}
    (h : program.foldlM (Statement.execute? inputs) s = some s') :
    s'.gates.map Prod.fst = program.gates.reverse ++ s.gates.map Prod.fst := by
  induction program generalizing s with
  | nil =>
    obtain rfl := Option.some.inj h
    rfl
  | cons st program ih =>
    rw [List.foldlM_cons] at h
    obtain ⟨s₁, hstep, hrest⟩ := Option.bind_eq_some_iff.mp h
    rw [ih hrest, Statement.gates_of_execute hstep, gates, gates, List.filterMap_cons]
    cases st.gate? <;> simp

/-- A program that runs reads a gate only after a statement that gives it a value. -/
theorem defined_of_run {program : Program} {s : RunState} (h : program.run? inputs = some s)
    {before after : Program} {st : Statement} (hsplit : program = before ++ st :: after)
    {x : Operand} (hx : x ∈ st.operands) {n : Nat} (hn : x.term = .gate n) : n ∈ before.gates := by
  rw [run?, hsplit, List.foldlM_append] at h
  obtain ⟨s₁, hbefore, hrest⟩ := Option.bind_eq_some_iff.mp h
  rw [List.foldlM_cons] at hrest
  obtain ⟨s₂, hstep, -⟩ := Option.bind_eq_some_iff.mp hrest
  obtain ⟨v, hv⟩ := Statement.operands_of_execute hstep hx
  have hmem := Operand.gate_mem_of_value hv hn
  rw [gates_of_run hbefore] at hmem
  simpa using hmem

end Program

end Run

section Text

def Term.text : Term → String
  | literal b => Listing.literal b
  | input name => name
  | gate n => s!"%{n}"

def Operand.text (x : Operand) : String := Listing.negateIf x.term.text x.negated

def Statement.text : Statement → String
  | gate n a b => s!"  %{n} = and({a.text}, {b.text})"
  | output name a => s!"  {name} = {a.text}"

/-- The characters that set the parts of a line apart. -/
def delimiters : List Char := ['(', ')', ',', '=', ' ', '\n']

/-- A name can be told from a gate and a literal, and does not run into its surroundings. -/
def IsName (name : String) : Prop :=
  name ≠ "" ∧ name ≠ "true" ∧ name ≠ "false" ∧ ∀ c ∈ name.toList, c ≠ '%' ∧ c ∉ delimiters

instance (name : String) : Decidable (IsName name) :=
  -- the characters of the name are gone through, not all characters
  haveI : Decidable (∀ c ∈ name.toList, c ≠ '%' ∧ c ∉ delimiters) := List.decidableBAll _ _
  inferInstanceAs (Decidable (_ ∧ _ ∧ _ ∧ _))

def Term.read? : List Char → Option Term
  | '%' :: digits => (Text.digits? 10 digits).map .gate
  | cs =>
    if String.ofList cs = "true" then some (.literal true)
    else if String.ofList cs = "false" then some (.literal false)
    else if IsName (String.ofList cs) then some (.input (String.ofList cs))
    else none

/-- What stands before a closing parenthesis at the end. -/
def inside? (cs : List Char) : Option (List Char) :=
  if cs.getLast? = some ')' then some cs.dropLast else none

def Operand.read? : List Char → Option Operand
  | 'n' :: 'o' :: 't' :: '(' :: cs =>
    (inside? cs).bind fun cs => (Term.read? cs).map (⟨·, true⟩)
  | cs => (Term.read? cs).map (⟨·, false⟩)

/-- The two texts around the first comma and the blank after it. -/
def pair? (cs : List Char) : Option (List Char × List Char) :=
  match cs.dropWhile (· ≠ ',') with
  | ',' :: ' ' :: rest => some (cs.takeWhile (· ≠ ','), rest)
  | _ => none

/-- The target and the value of a line, around the last equals sign and the blanks beside it. -/
def assignment? : List Char → Option (List Char × List Char)
  | ' ' :: ' ' :: cs =>
    match cs.reverse.dropWhile (· ≠ '='), (cs.reverse.takeWhile (· ≠ '=')).reverse with
    | '=' :: ' ' :: target, ' ' :: value => some (target.reverse, value)
    | _, _ => none
  | _ => none

/-- A statement from its target and its value. -/
def Statement.ofParts? : List Char → List Char → Option Statement
  | '%' :: digits, 'a' :: 'n' :: 'd' :: '(' :: cs => do
    let (a, b) ← pair? (← inside? cs)
    return .gate (← Text.digits? 10 digits) (← Operand.read? a) (← Operand.read? b)
  | name, value => (Operand.read? value).map (.output (String.ofList name))

def Statement.read? (line : List Char) : Option Statement :=
  (assignment? line).bind fun parts => ofParts? parts.1 parts.2

/-- The program of a listing: the lines between the heading and the closing brace. -/
def Program.read? : List String → Option Program
  | [] => none
  | _ :: lines =>
    if lines.getLast? = some "\x7d" then lines.dropLast.mapM fun line => Statement.read? line.toList
    else none

end Text

end Aig
end LogicResynthesis
