import LogicResynthesis.Text.Numeral

/-!
# Command-line arguments

The program takes options, then a command with options and operands of its own.
An option is written `--name value` or `--name=value`, a flag `--name`. An
argument with a dash in front is never the value of an option, a lone dash
excepted, and after `--` every argument is an operand. Giving an option or flag
twice in one place is a mistake.
-/

namespace LogicResynthesis
namespace Cli

structure QueryArguments where
  function : String
  inputs : Nat
  limit : Option Nat
  listing : Bool
  json : Bool
deriving DecidableEq, Repr

inductive Command
  | version
  | stats (json : Bool)
  | query (arguments : QueryArguments)
deriving DecidableEq, Repr

/-- What a well-formed command line asks for. -/
structure Invocation where
  settingsPath : Option String
  verbose : Bool
  command : Option Command
deriving DecidableEq, Repr

/-- Why there is nothing to run: a mistake, or a request that is answered at once. -/
inductive Refusal
  | usage
  | help
  | programVersion
deriving DecidableEq, Repr

/-- How an argument reads before its place is considered. -/
inductive Token
  /-- The argument `--` that ends the options. -/
  | escape
  | long (name : String) (value : Option String)
  | short (letters : List Char)
  | plain (text : String)
deriving DecidableEq, Repr

def Token.ofArgument (text : String) : Token :=
  match text.toList with
  | ['-', '-'] => .escape
  | '-' :: '-' :: cs =>
    let name := cs.takeWhile (· ≠ '=')
    match cs.drop name.length with
    | _ :: value => .long (String.ofList name) (some (String.ofList value))
    | [] => .long (String.ofList name) none
  | '-' :: c :: cs => .short (c :: cs)
  | _ => .plain text

/-- A cluster of short options: each letter is looked at in turn. -/
def Refusal.ofShort (topLevel : Bool) : List Char → Refusal
  | 'h' :: _ => .help
  | 'V' :: _ => if topLevel then .programVersion else .usage
  | _ => .usage

def once {α : Type} (old : Option α) (new : α) : Except Refusal (Option α) :=
  match old with
  | none => .ok (some new)
  | some _ => .error .usage

def wholeNumber (text : String) : Except Refusal Nat :=
  match Text.bounded? 10 Text.wordBound text.toList with
  | some n => .ok n
  | none => .error .usage

/-- The value of an option: attached, or the next argument. -/
def optionValue (attached : Option String) (rest : List String) :
    Except Refusal (String × List String) :=
  match attached, rest with
  | some value, rest => .ok (value, rest)
  | none, arg :: rest =>
    match Token.ofArgument arg with
    | .plain value => .ok (value, rest)
    | _ => .error .usage
  | none, [] => .error .usage

def flag (attached : Option String) (old : Option Unit) : Except Refusal (Option Unit) :=
  match attached with
  | some _ => .error .usage
  | none => once old ()

structure Given where
  operand : Option String
  inputs : Option Nat
  limit : Option Nat
  listing : Option Unit
  json : Option Unit
  verbose : Option Unit
deriving DecidableEq, Repr

def Given.nothing : Given := ⟨none, none, none, none, none, none⟩

inductive CommandName
  | version
  | stats
  | query
deriving DecidableEq, Repr

def CommandName.ofText? : String → Option CommandName
  | "version" => some .version
  | "stats" => some .stats
  | "query" => some .query
  | _ => none

/-- Only a query has an operand, and only one. -/
def Given.addOperand (name : CommandName) (g : Given) (text : String) : Except Refusal Given :=
  if name = .query then (once g.operand text).map fun o => { g with operand := o }
  else .error .usage

/-- Takes up a long option of a command, and returns the arguments after it. -/
def Given.addLong (name : CommandName) (g : Given) (option : String)
    (attached : Option String) (rest : List String) : Except Refusal (Given × List String) := do
  match name, option with
  | _, "verbose" => return ({ g with verbose := ← flag attached g.verbose }, rest)
  | _, "help" => if attached.isSome then throw .usage else throw .help
  | .stats, "json" | .query, "json" => return ({ g with json := ← flag attached g.json }, rest)
  | .query, "show" => return ({ g with listing := ← flag attached g.listing }, rest)
  | .query, "num_inputs" =>
    let (value, rest) ← optionValue attached rest
    return ({ g with inputs := ← once g.inputs (← wholeNumber value) }, rest)
  | .query, "max_candidates" =>
    let (value, rest) ← optionValue attached rest
    return ({ g with limit := ← once g.limit (← wholeNumber value) }, rest)
  | _, _ => throw .usage

/-- Reads the arguments after the name of a command. -/
def commandArguments (name : CommandName) : Nat → Given → List String → Except Refusal Given
  | _, g, [] => .ok g
  | 0, _, _ => .error .usage
  | fuel + 1, g, arg :: rest =>
    match Token.ofArgument arg with
    | .escape => rest.foldlM (Given.addOperand name) g
    | .short letters => .error (Refusal.ofShort false letters)
    | .plain text => (g.addOperand name text).bind fun g => commandArguments name fuel g rest
    | .long option attached =>
      match g.addLong name option attached rest with
      | .error e => .error e
      | .ok (g, rest) => commandArguments name fuel g rest

def Given.command (g : Given) : CommandName → Except Refusal Command
  | .version => .ok .version
  | .stats => .ok (.stats g.json.isSome)
  | .query =>
    match g.operand with
    | none => .error .usage
    | some function =>
      .ok (.query ⟨function, g.inputs.getD 4, g.limit, g.listing.isSome, g.json.isSome⟩)

/-- The command `help` may name a command, about which it informs. -/
def helpRequest : List String → Refusal
  | [] => .help
  | [name] => if (CommandName.ofText? name).isSome || name = "help" then .help else .usage
  | _ => .usage

/-- Reads the options before the command, and the command. -/
def topLevel : Nat → Option String → Option Unit → List String → Except Refusal Invocation
  | _, path, verbose, [] => .ok ⟨path, verbose.isSome, none⟩
  | 0, _, _, _ => .error .usage
  | fuel + 1, path, verbose, arg :: rest =>
    match Token.ofArgument arg with
    | .escape => if rest.isEmpty then .ok ⟨path, verbose.isSome, none⟩ else .error .usage
    | .short letters => .error (Refusal.ofShort true letters)
    | .long "config" attached => do
      let (value, rest) ← optionValue attached rest
      topLevel fuel (← once path value) verbose rest
    | .long "verbose" attached => do topLevel fuel path (← flag attached verbose) rest
    | .long "help" none => .error .help
    | .long "version" none => .error .programVersion
    | .long _ _ => .error .usage
    | .plain "help" => .error (helpRequest rest)
    | .plain text =>
      match CommandName.ofText? text with
      | none => .error .usage
      | some name => do
        let g ← commandArguments name rest.length .nothing rest
        return ⟨path, verbose.isSome || g.verbose.isSome, some (← g.command name)⟩

def parse (args : List String) : Except Refusal Invocation :=
  topLevel args.length none none args

end Cli
end LogicResynthesis
