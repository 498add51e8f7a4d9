import MutationTester.Text.Alignment
import MutationTester.Text.Lines
import MutationTester.Text.Settling

/-!
# Differences of texts

The difference of two texts is a shortest list of lines to delete from the one and to insert
for the other, as text.
-/

set_option autoImplicit false

namespace MutationTester.Text

/-- The changes that turn one list of lines into another. -/
def changes (old new : List String) : List Change := Edit.changes (settle (align old new))

/-- A line with an end: a line feed is added to one that has none. -/
def endLine (line : String) : String :=
  match line.toList.getLast? with
  | some '\n' => line
  | some '\r' => line
  | _ => line ++ "\n"

/-- The text of a change: a minus sign for a line deleted, a plus sign for a line inserted. -/
def Change.text : Change → String
  | delete line => "- " ++ endLine line
  | insert line => "+ " ++ endLine line

/-- The text of the difference of two texts. -/
def diff (old new : String) : String :=
  String.join ((changes (splitKeepingEnds old) (splitKeepingEnds new)).map Change.text)

end MutationTester.Text
