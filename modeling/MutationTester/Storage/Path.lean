/-!
# Paths

A path is a text whose parts are separated by slashes. Empty parts, and parts that are a
single dot, name nothing; but a dot at the very beginning is kept, because it says where the
path begins.
-/

set_option autoImplicit false

namespace MutationTester

/-- The name of a file or directory. -/
abbrev Path := String

namespace Path

/-- Cuts characters at each slash. -/
def splitChars : List Char → List (List Char)
  | [] => [[]]
  | c :: cs =>
    if c = '/' then [] :: splitChars cs
    else
      match splitChars cs with
      | [] => [[c]]
      | part :: parts => (c :: part) :: parts

/-- The parts of a path, also those that name nothing. -/
def parts (p : Path) : List String := (splitChars p.toList).map String.ofList

/-- Whether a path begins at the root. -/
def isAbsolute (p : Path) : Bool := p.toList.head? = some '/'

/-- Whether a part names nothing. -/
def isIdle (part : List Char) : Bool := part = [] || part = ['.']

/-- The beginning of a path that is no part like others, and the rest of the path: the slash
of the root, or the dot that names the current directory. -/
def anchor : List Char → List Char × List Char
  | '/' :: cs => (['/'], cs)
  | ['.'] => (['.'], [])
  | '.' :: '/' :: cs => (['.'], '/' :: cs)
  | cs => ([], cs)

/-- The parts after the anchor up to the last one that names something, from the last on. -/
def namedParts (cs : List Char) : List (List Char) :=
  (splitChars (anchor cs).2).reverse.dropWhile isIdle

/-- Joins parts with slashes. -/
def joinParts (parts : List (List Char)) : List Char := List.intercalate ['/'] parts

/-- The path of the directory that a path lies in. The root lies in none, and neither does the
empty path. -/
def parent? (p : Path) : Option Path :=
  let (start, _) := anchor p.toList
  match namedParts p.toList with
  | _ :: before => some (String.ofList (start ++ joinParts (before.dropWhile isIdle).reverse))
  | [] => if start = ['.'] then some "" else none

/-- The last name in a path, unless it is the one that leads upwards. -/
def fileName? (p : Path) : Option String :=
  match namedParts p.toList with
  | name :: _ => if name = ['.', '.'] then none else some (String.ofList name)
  | [] => none

/-- A name without its extension: what comes before its last dot, unless that is nothing. -/
def stem (name : String) : String :=
  match name.toList.reverse.dropWhile (· ≠ '.') with
  | _ :: c :: cs => String.ofList (c :: cs).reverse
  | _ => name

/-- A path that is meant in a directory. An absolute path is meant as it is. -/
def join (directory p : Path) : Path :=
  if p.isAbsolute then p
  else
    match directory.toList.getLast? with
    | none => p
    | some '/' => directory ++ p
    | some _ => directory ++ "/" ++ p

end Path

end MutationTester
