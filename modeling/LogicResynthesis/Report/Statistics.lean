import LogicResynthesis.Report.Duration
import LogicResynthesis.Resynthesis.Engine

/-!
# Construction statistics

What building an engine took and gave: the times for the class table and for the
library, the size of the library, and the number of classes that it covers. The
report has one line for each.
-/

namespace LogicResynthesis

structure Statistics where
  classTime : Duration
  libraryTime : Duration
  librarySize : Nat
  covered : Nat

namespace Statistics

def ofEngine (e : Engine) (classTime libraryTime : Duration) : Statistics :=
  ⟨classTime, libraryTime, e.library.size, e.index.covered⟩

/-- Blanks in front, up to `width` characters. -/
def padLeft (width : Nat) (s : String) : String :=
  String.ofList (List.replicate (width - s.length) ' ') ++ s

/-- Seconds with two decimal places, at least five characters wide. -/
def secondsText (d : Duration) : String := padLeft 5 d.inSeconds.toFixed

def lines (s : Statistics) : List String :=
  [s!"[i] build classes time = {secondsText s.classTime} secs",
   s!"[i] build db time      = {secondsText s.libraryTime} secs",
   s!"[i] db size            = {s.librarySize}",
   s!"[i] covered classes    = {s.covered}"]

def report (s : Statistics) : String := "\n".intercalate s.lines

end Statistics

end LogicResynthesis
