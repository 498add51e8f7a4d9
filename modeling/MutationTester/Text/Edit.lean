/-!
# Edits

A list of edits leads from one text to another, line by line: a line is kept, a line is deleted,
or lines are inserted. The changes are what is left of it without the lines that are kept. Where
lines are replaced, the deletions come before the insertions.
-/

set_option autoImplicit false

namespace MutationTester.Text

/-- One step from one text to another. Lines that are inserted at one place may be one edit. -/
inductive Edit
  | keep (line : String)
  | delete (line : String)
  | insert (lines : List String)
  deriving DecidableEq

/-- One line that is in one of two texts only. -/
inductive Change
  | delete (line : String)
  | insert (line : String)
  deriving DecidableEq

namespace Edit

/-- The edits that delete some lines and insert others instead. -/
def replace (old new : List String) : List Edit :=
  old.map delete ++ if new.isEmpty then [] else [insert new]

/-- The changes that edits make, with lines to insert after the deletions that follow. -/
def changesBefore (inserted : List String) : List Edit → List Change
  | [] => inserted.map .insert
  | keep _ :: edits => inserted.map .insert ++ changesBefore [] edits
  | delete line :: edits => .delete line :: changesBefore inserted edits
  | insert lines :: edits => changesBefore (inserted ++ lines) edits

/-- The changes that edits make. -/
def changes (edits : List Edit) : List Change := changesBefore [] edits

end Edit

end MutationTester.Text
