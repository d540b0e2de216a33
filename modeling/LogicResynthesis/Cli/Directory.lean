/-!
# The working directory

A directory of text files and the paths that reach them. A path may start with
steps that stay in the directory: a dot and at least one slash. What is left
has to be the name of a file, so a path that ends in a slash or a dot, or that
leads through another directory, reaches none.
-/

namespace LogicResynthesis
namespace Cli

/-- The path after the steps that stay in the directory it starts from. -/
def withoutDotSteps : List Char → List Char
  | '.' :: '/' :: cs => withoutDotSteps (cs.dropWhile (· = '/'))
  | cs => cs
termination_by cs => cs.length
decreasing_by
  have h := (List.dropWhile_suffix (l := cs) (· = '/')).length_le
  simp only [List.length_cons]
  omega

theorem withoutDotSteps_step (cs : List Char) :
    withoutDotSteps ('.' :: '/' :: cs) = withoutDotSteps (cs.dropWhile (· = '/')) := by
  rw [withoutDotSteps]

/-- Files by name, with their texts. -/
structure Directory where
  files : List (String × String)

namespace Directory

/-- A path has at most this many bytes. -/
def longestPath : Nat := 4095

/-- The text of the file that a path reaches. -/
def read? (d : Directory) (path : String) : Option String :=
  if path.utf8ByteSize ≤ longestPath then
    d.files.lookup (String.ofList (withoutDotSteps path.toList))
  else none

end Directory

end Cli
end LogicResynthesis
