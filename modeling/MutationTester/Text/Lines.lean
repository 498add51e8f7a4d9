/-!
# Lines of text

Two notions of a line are in use. For comparing texts a line is a piece of text up to and
with a line feed, a carriage return, or both in this order, so that no character is lost. For
reading lists a line ends before a line feed, or before a carriage return and a line feed.
-/

set_option autoImplicit false

namespace MutationTester.Text

/-- Cuts characters into lines that keep their ends. The characters of the line at hand are
given in reverse, and so are the lines before it. -/
def linesWithEnds (lines : List (List Char)) (line : List Char) : List Char → List (List Char)
  | [] => if line.isEmpty then lines.reverse else (line.reverse :: lines).reverse
  | '\n' :: cs => linesWithEnds (('\n' :: line).reverse :: lines) [] cs
  | '\r' :: '\n' :: cs => linesWithEnds (('\n' :: '\r' :: line).reverse :: lines) [] cs
  | '\r' :: cs => linesWithEnds (('\r' :: line).reverse :: lines) [] cs
  | c :: cs => linesWithEnds lines (c :: line) cs

/-- The lines of a text with their ends. -/
def splitKeepingEnds (s : String) : List String :=
  (linesWithEnds [] [] s.toList).map String.ofList

/-- Drops a carriage return in front of characters that are given in reverse. -/
def dropReturn : List Char → List Char
  | '\r' :: cs => cs
  | cs => cs

/-- Cuts characters into lines without their ends; a text that ends with a line feed has no
empty line after it. -/
def linesWithoutEnds (lines : List (List Char)) (line : List Char) : List Char → List (List Char)
  | [] => if line.isEmpty then lines.reverse else (line.reverse :: lines).reverse
  | c :: cs =>
    if c = '\n' then linesWithoutEnds ((dropReturn line).reverse :: lines) [] cs
    else linesWithoutEnds lines (c :: line) cs

/-- The lines of a text without their ends. -/
def lines (s : String) : List String :=
  (linesWithoutEnds [] [] s.toList).map String.ofList

end MutationTester.Text
