import LogicResynthesis.Cli.Query
import LogicResynthesis.Cli.Settings
import LogicResynthesis.Cli.Stats

/-!
# Runs of the command line

A run maps the arguments and the files it can see to an exit code and the lines
on both output channels. Mistakes in the arguments come first, then those in the
settings file, then those of the command. A settings file that is named has to be
there; the one in the working directory is used if it is there.
-/

namespace LogicResynthesis
namespace Cli

def programName : String := "xag-npn-driver"

def programVersion : String := "0.1.0"

/-- The settings file that is looked for when none is named. -/
def defaultSettingsPath : String := "xag-npn.toml"

structure RunResult where
  exit : Nat
  stdout : List String
  stderr : List String
deriving DecidableEq, Repr

namespace RunResult

def success (lines : List String) : RunResult := ⟨0, lines, []⟩

/-- A complaint under the name of the program ends a run with code 1. -/
def failure (lines : List String) (complaint : String) : RunResult :=
  ⟨1, lines, [s!"{programName}: {complaint}"]⟩

/-- A broken internal step ends a run with code 101. -/
def crash (message : String) : RunResult := ⟨101, [], [message]⟩

/-- The outcome of a command of the given name. -/
def ofTranscript (command : String) (t : Transcript) : RunResult :=
  match t.complaint with
  | none => success t.lines
  | some complaint => failure t.lines s!"{command}: {complaint}"

end RunResult

def usageLine : String :=
  s!"Usage: {programName} [--config CONFIG] [--verbose] [version | stats [--json] | query TRUTH_TABLE [--num_inputs NUM_INPUTS] [--max_candidates N] [--show] [--json]]"

def Refusal.result : Refusal → RunResult
  | .usage => ⟨2, [], [usageLine]⟩
  | .help => .success [usageLine]
  | .programVersion => .success [s!"{programName} {Cli.programVersion}"]

/-- The settings that a run uses, if they can be loaded. -/
def loadSettings (file? : String → Option String) (path : Option String) : Option Settings :=
  match path with
  | some path => (file? path).bind Settings.ofText?
  | none =>
    match file? defaultSettingsPath with
    | some text => Settings.ofText? text
    | none => some .none

/-- A flag on the command line wins over the settings file. -/
def verbosity (i : Invocation) (s : Settings) : Bool := i.verbose || s.verbose.getD false

def runCommand (engine : Except EngineError Engine) (t : Timings) : Command → RunResult
  | .version => .success [programVersion]
  | .stats json =>
    match engine with
    | .error e => .crash e.message
    | .ok e => .success (if json then statsJsonLines e t else statsLines e t)
  | .query q =>
    match runQuery engine q with
    | .error e => .crash e.message
    | .ok t => .ofTranscript "query" t

def run (file? : String → Option String) (t : Timings) (args : List String) : RunResult :=
  match parse args with
  | .error refusal => refusal.result
  | .ok i =>
    match loadSettings file? i.settingsPath with
    | none => .failure [] "could not load config"
    | some s =>
      match i.command with
      | none => .failure [] "No valid subcommand provided."
      | some c =>
        let engine := Engine.builtIn false
        runCommand (engine.map fun e => { e with verbose := verbosity i s }) t c

/-- The settings file that a run with these arguments looks for. -/
def settingsFile (args : List String) : String :=
  match parse args with
  | .ok i => i.settingsPath.getD defaultSettingsPath
  | .error _ => defaultSettingsPath

end Cli
end LogicResynthesis
