import LogicResynthesis.Report.Statistics

/-!
# The stats command

The statistics of the built-in library as plain lines or as an object in braces.
-/

namespace LogicResynthesis
namespace Cli

open Npn (ClassTable)

/-- The times that the construction of an engine took. -/
structure Timings where
  classTime : Duration
  libraryTime : Duration

def statsLines (e : Engine) (t : Timings) : List String :=
  let s := Statistics.ofEngine e t.classTime t.libraryTime
  [s!"npn classes:      {ClassTable.standard.classes}",
   s!"db size:          {s.librarySize}",
   s!"covered classes:  {s.covered}",
   s!"library signals:  {e.index.numSignals}",
   s!"build classes:    {s.classTime.inSeconds.toFixed} secs",
   s!"build db:         {s.libraryTime.inSeconds.toFixed} secs"]

def statsJsonLines (e : Engine) (t : Timings) : List String :=
  let s := Statistics.ofEngine e t.classTime t.libraryTime
  ["\x7b",
   s!"  \"npn_classes\": {ClassTable.standard.classes},",
   s!"  \"db_size\": {s.librarySize},",
   s!"  \"covered_classes\": {s.covered},",
   s!"  \"library_signals\": {e.index.numSignals},",
   s!"  \"time_classes_secs\": {s.classTime.toDecimal},",
   s!"  \"time_db_secs\": {s.libraryTime.toDecimal}",
   "\x7d"]

end Cli
end LogicResynthesis
