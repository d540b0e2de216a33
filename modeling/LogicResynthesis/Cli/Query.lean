import LogicResynthesis.Aig.Builder
import LogicResynthesis.Aig.Listing
import LogicResynthesis.Cli.Arguments
import LogicResynthesis.Resynthesis.Query
import LogicResynthesis.TruthTable.Hex

/-!
# The query command

A query builds every candidate for a function in one folding and sharing builder
over inputs `x0`, `x1` and so on, checks each candidate by simulation against
the function that was asked for, and reports the number of its AND gates. The
builder is complete before the first candidate is checked.
-/

namespace LogicResynthesis
namespace Cli

open Aig (Builder Netlist)

structure CandidateReport where
  index : Nat
  andGates : Nat
deriving DecidableEq, Repr

namespace CandidateReport

def line (r : CandidateReport) : String := s!"candidate {r.index}: and_gates={r.andGates}"

def jsonLines (r : CandidateReport) (comma : Bool) : List String :=
  ["  \x7b", s!"    \"index\": {r.index},", s!"    \"and_gates\": {r.andGates}",
   if comma then "  \x7d," else "  \x7d"]

/-- The entries of a list, with a comma after each but the last. -/
def entryLines : List CandidateReport → List String
  | [] => []
  | [r] => r.jsonLines false
  | r :: rest => r.jsonLines true ++ entryLines rest

/-- A list of reports over several lines; an empty one stays on one line. -/
def listLines : List CandidateReport → List String
  | [] => ["[]"]
  | reports => "[" :: entryLines reports ++ ["]"]

end CandidateReport

/-- The lines a command writes, and the complaint with which it ends if it fails. -/
structure Transcript where
  lines : List String
  complaint : Option String
deriving DecidableEq, Repr

/-- A builder with `n` inputs, and their signals. -/
def queryInputs : Nat → Builder × List Signal
  | 0 => (Builder.new "query" true true, [])
  | n + 1 =>
    let (b, leaves) := queryInputs n
    let (s, b) := b.addInput s!"x{n}"
    (b, leaves ++ [s])

def candidateNetlist (b : Builder) (index : Nat) (candidate : Signal) : Netlist :=
  { b.netlist with name := s!"candidate_{index}", outputs := #[⟨"o", candidate⟩] }

/-- The listings and reports of the candidates that were checked. -/
structure Review where
  listings : List String
  reports : List CandidateReport
  complaint : Option String
deriving DecidableEq, Repr

/-- Checks candidates from number `index` on; the first one that fails ends the review. -/
def review (b : Builder) (vars : List Table4) (expected : Table4) (listing : Bool) :
    Nat → List Signal → Except Fault Review
  | _, [] => .ok ⟨[], [], none⟩
  | index, candidate :: rest => do
    let actual ← Aig.simulate b.nodes b.netlist.inputs.toList vars candidate
    if actual ≠ expected then
      return ⟨[], [],
        some s!"candidate {index} computes {actual.toHex} but {expected.toHex} was requested"⟩
    let netlist := candidateNetlist b index candidate
    let listed ← if listing then netlist.lines else pure []
    let report : CandidateReport := ⟨index, ← netlist.numLiveGates⟩
    let r ← review b vars expected listing (index + 1) rest
    return { r with listings := listed ++ r.listings, reports := report :: r.reports }

/-- Everything that is written about the reports. -/
def reportLines (q : QueryArguments) (function : Table) (reports : List CandidateReport) :
    List String :=
  (if reports.isEmpty then [s!"no candidates for {function.toHex}"] else []) ++
    reports.map CandidateReport.line ++
    (if q.json then CandidateReport.listLines reports else [])

/-- Answers a query for a function that has been read. -/
def answerQuery (e : Engine) (q : QueryArguments) (function : Table) :
    Except Fault Transcript := do
  let (b, leaves) := queryInputs q.inputs
  let outcome ← e.query function leaves (Engine.belowLimit q.limit) b
  match function.toTable4? with
  | none =>
    return ⟨[s!"{q.inputs}-input functions are not supported; no candidates"], none⟩
  | some expected =>
    let vars ← (List.range q.inputs).mapM Table4.projection?
    let r ← review outcome.target vars expected q.listing 0 outcome.offers
    match r.complaint with
    | some complaint => return ⟨r.listings, some complaint⟩
    | none => return ⟨r.listings ++ reportLines q function r.reports, none⟩

/-- Runs a query. The engine is needed only if the function can be read. -/
def runQuery (engine : Except EngineError Engine) (q : QueryArguments) :
    Except EngineError Transcript :=
  match Table.ofHex q.inputs q.function with
  | .error e => .ok ⟨[], some s!"parsing truth table {Text.quoted q.function}: {e.message}"⟩
  | .ok function =>
    match engine with
    | .error e => .error e
    | .ok e => (answerQuery e q function).mapError .fault

end Cli
end LogicResynthesis
