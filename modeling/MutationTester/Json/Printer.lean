import MutationTester.Json.Value

/-!
# Writing JSON

Values are written without blanks, members in their order. In strings the quote, the
backslash and the control characters below the blank are escaped, and nothing else is.
-/

set_option autoImplicit false

namespace MutationTester.Json

/-- The lower-case hexadecimal digit of a number below sixteen. -/
def hexDigit (n : Nat) : Char := n.digitChar

/-- The characters that stand for a character inside a string literal. -/
def escape (c : Char) : List Char :=
  if c = '"' then ['\\', '"']
  else if c = '\\' then ['\\', '\\']
  else if c = '\x08' then ['\\', 'b']
  else if c = '\x0c' then ['\\', 'f']
  else if c = '\n' then ['\\', 'n']
  else if c = '\r' then ['\\', 'r']
  else if c = '\t' then ['\\', 't']
  else if c.toNat < 0x20 then ['\\', 'u', '0', '0', hexDigit (c.toNat / 16), hexDigit (c.toNat % 16)]
  else [c]

/-- The literal of a text. -/
def quote (s : String) : List Char :=
  '"' :: (s.toList.flatMap escape ++ ['"'])

/-- The literal of a string; one that denotes no text is half a surrogate pair. -/
def renderString : Option String → List Char
  | some s => quote s
  | none => ['"', '\\', 'u', 'd', '8', '0', '0', '"']

namespace Value

mutual

/-- The text of a value. -/
def render : Value → List Char
  | .null => ['n', 'u', 'l', 'l']
  | .bool true => ['t', 'r', 'u', 'e']
  | .bool false => ['f', 'a', 'l', 's', 'e']
  | .number n => n.render
  | .string s => renderString s
  | .array items => '[' :: (renderItems items ++ [']'])
  | .object members => '{' :: (renderMembers members ++ ['}'])
termination_by structural v => v

/-- The texts of several values, separated by commas. -/
def renderItems : List Value → List Char
  | [] => []
  | v :: vs =>
    match vs with
    | [] => render v
    | _ :: _ => render v ++ ',' :: renderItems vs
termination_by structural vs => vs

/-- The texts of several members, separated by commas. -/
def renderMembers : List (Option String × Value) → List Char
  | [] => []
  | (key, v) :: ms =>
    match ms with
    | [] => renderString key ++ ':' :: render v
    | _ :: _ => renderString key ++ ':' :: (render v ++ ',' :: renderMembers ms)
termination_by structural ms => ms

end

/-- The text of a value as a string. -/
def toText (v : Value) : String := String.ofList v.render

end Value

end MutationTester.Json
