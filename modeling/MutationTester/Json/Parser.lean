import MutationTester.Json.Value

/-!
# Reading JSON

The reader accepts exactly the grammar of JSON: four blanks, no comments, no comma after the
last item, no sign or zero in front of a number that needs none. Each function takes the
characters that are left and gives those that are left after what it has read.
-/

set_option autoImplicit false

namespace MutationTester.Json

/-- Blank, tab, line feed and carriage return may stand between the parts of a value. -/
def isBlank (c : Char) : Bool := c = ' ' || c = '\t' || c = '\n' || c = '\r'

/-- The characters after the blanks in front. -/
def skipBlank (cs : List Char) : List Char := cs.dropWhile isBlank

/-- The characters after a word, if they begin with it. -/
def skipWord : List Char → List Char → Option (List Char)
  | [], cs => some cs
  | _ :: _, [] => none
  | w :: ws, c :: cs => if w = c then skipWord ws cs else none

/-! ## Strings -/

/-- What one part of a string literal stands for: a character, or half of a surrogate pair,
of which `high` holds the upper ten bits of a character and `low` the lower ten. -/
inductive Piece
  | char (c : Char)
  | high (bits : Nat)
  | low (bits : Nat)

/-- What a four-digit escape stands for. -/
def Piece.ofUnit (n : Nat) : Piece :=
  if 0xD800 ≤ n ∧ n < 0xDC00 then .high (n - 0xD800)
  else if 0xDC00 ≤ n ∧ n < 0xE000 then .low (n - 0xDC00)
  else .char (Char.ofNat n)

/-- The characters that the parts of a literal denote, if each half of a surrogate pair
stands next to its other half. -/
def charsOf : List Char → List Piece → Option (List Char)
  | read, [] => some read.reverse
  | read, .char c :: ps => charsOf (c :: read) ps
  | read, .high h :: .low l :: ps => charsOf (Char.ofNat (0x10000 + h * 0x400 + l) :: read) ps
  | _, .high _ :: _ => none
  | _, .low _ :: _ => none

/-- The value of a hexadecimal digit in either case. -/
def hexValue? (c : Char) : Option Nat :=
  if '0' ≤ c ∧ c ≤ '9' then some (c.toNat - '0'.toNat)
  else if 'a' ≤ c ∧ c ≤ 'f' then some (c.toNat - 'a'.toNat + 10)
  else if 'A' ≤ c ∧ c ≤ 'F' then some (c.toNat - 'A'.toNat + 10)
  else none

/-- The value of four hexadecimal digits. -/
def unitValue? (a b c d : Char) : Option Nat := do
  let a ← hexValue? a
  let b ← hexValue? b
  let c ← hexValue? c
  let d ← hexValue? d
  return ((a * 16 + b) * 16 + c) * 16 + d

/-- The character that a two-character escape stands for. -/
def shortEscape? (c : Char) : Option Char :=
  if c = '"' then some '"'
  else if c = '\\' then some '\\'
  else if c = '/' then some '/'
  else if c = 'b' then some '\x08'
  else if c = 'f' then some '\x0c'
  else if c = 'n' then some '\n'
  else if c = 'r' then some '\r'
  else if c = 't' then some '\t'
  else none

/-- Reads a string literal after its opening quote, with the parts read so far in reverse. -/
def readPieces : List Piece → List Char → Option (List Piece × List Char)
  | _, [] => none
  | read, '"' :: cs => some (read.reverse, cs)
  | read, '\\' :: 'u' :: a :: b :: c :: d :: cs =>
    match unitValue? a b c d with
    | some n => readPieces (.ofUnit n :: read) cs
    | none => none
  | read, '\\' :: e :: cs =>
    match shortEscape? e with
    | some c => readPieces (.char c :: read) cs
    | none => none
  | read, c :: cs =>
    if c.toNat < 0x20 ∨ c = '\\' then none else readPieces (.char c :: read) cs

/-- Reads a string literal after its opening quote. -/
def readString (cs : List Char) : Option (Option String × List Char) :=
  (readPieces [] cs).map fun (pieces, rest) => ((charsOf [] pieces).map String.ofList, rest)

/-! ## Numbers -/

/-- The number that a list of decimal digits writes. -/
def natOfDigits (ds : List Char) : Nat := Nat.ofDigitChars 10 ds 0

/-- Reads one digit or more. -/
def readDigits (cs : List Char) : Option (List Char × List Char) :=
  let (ds, rest) := cs.span Char.isDigit
  if ds.isEmpty then none else some (ds, rest)

/-- Reads the whole number in front of a point, which has no zero in front. -/
def readWhole (cs : List Char) : Option (Nat × List Char) := do
  let (ds, rest) ← readDigits cs
  if ds.head? = some '0' ∧ 1 < ds.length then none else some (natOfDigits ds, rest)

/-- Reads the digits after a point, if there is a point. -/
def readFraction : List Char → Option (List (Fin 10) × List Char)
  | '.' :: cs => (readDigits cs).map fun (ds, rest) => (ds.map Number.digitOfChar, rest)
  | cs => some ([], cs)

/-- Reads the digits of a power of ten with the given sign. -/
def readPower (negative : Bool) (cs : List Char) : Option (Option Int × List Char) :=
  (readDigits cs).map fun (ds, rest) =>
    (some (if negative then -(natOfDigits ds : Int) else natOfDigits ds), rest)

/-- Reads a power of ten after its sign, if it has one. -/
def readSignedPower : List Char → Option (Option Int × List Char)
  | '-' :: cs => readPower true cs
  | '+' :: cs => readPower false cs
  | cs => readPower false cs

/-- Reads the power of ten, if there is an exponent mark. -/
def readExponent : List Char → Option (Option Int × List Char)
  | 'e' :: cs => readSignedPower cs
  | 'E' :: cs => readSignedPower cs
  | cs => some (none, cs)

/-- Reads a number without its sign. -/
def readUnsigned (negative : Bool) (cs : List Char) : Option (Number × List Char) := do
  let (whole, cs) ← readWhole cs
  let (fraction, cs) ← readFraction cs
  let (exponent, cs) ← readExponent cs
  return (⟨negative, whole, fraction, exponent⟩, cs)

/-- Reads a number. -/
def readNumber : List Char → Option (Number × List Char)
  | '-' :: cs => readUnsigned true cs
  | cs => readUnsigned false cs

/-! ## Values -/

/-- Reads a key and the colon after it. -/
def readKey (cs : List Char) : Option (Option String × List Char) :=
  match skipBlank cs with
  | '"' :: rest => do
    let (key, rest) ← readString rest
    match skipBlank rest with
    | ':' :: rest => some (key, rest)
    | _ => none
  | _ => none

mutual

/-- Reads a value. At most `fuel` values, items and members are entered. -/
def readValue : Nat → List Char → Option (Value × List Char)
  | 0, _ => none
  | fuel + 1, cs =>
    match skipBlank cs with
    | [] => none
    | c :: rest =>
      if c = '"' then (readString rest).map fun (s, rest) => (.string s, rest)
      else if c = '[' then
        match skipBlank rest with
        | ']' :: rest => some (.array [], rest)
        | _ => readItems fuel [] rest
      else if c = '{' then
        match skipBlank rest with
        | '}' :: rest => some (.object [], rest)
        | _ => readMembers fuel [] rest
      else if c = 'n' then (skipWord ['u', 'l', 'l'] rest).map fun rest => (.null, rest)
      else if c = 't' then (skipWord ['r', 'u', 'e'] rest).map fun rest => (.bool true, rest)
      else if c = 'f' then (skipWord ['a', 'l', 's', 'e'] rest).map fun rest => (.bool false, rest)
      else (readNumber (c :: rest)).map fun (n, rest) => (.number n, rest)

/-- Reads the items of an array up to its closing bracket, with those read so far in reverse. -/
def readItems : Nat → List Value → List Char → Option (Value × List Char)
  | 0, _, _ => none
  | fuel + 1, read, cs =>
    match readValue fuel cs with
    | none => none
    | some (v, rest) =>
      match skipBlank rest with
      | ',' :: rest => readItems fuel (v :: read) rest
      | ']' :: rest => some (.array (v :: read).reverse, rest)
      | _ => none

/-- Reads the members of an object up to its closing brace, with those read so far in
reverse. -/
def readMembers : Nat → List (Option String × Value) → List Char → Option (Value × List Char)
  | 0, _, _ => none
  | fuel + 1, read, cs =>
    match readKey cs with
    | none => none
    | some (key, rest) =>
      match readValue fuel rest with
      | none => none
      | some (v, rest) =>
        match skipBlank rest with
        | ',' :: rest => readMembers fuel ((key, v) :: read) rest
        | '}' :: rest => some (.object ((key, v) :: read).reverse, rest)
        | _ => none

end

/-- The value that a text holds, with nothing but blanks around it. A value is entered
before its first character is taken, and an item before its value is, so twice as many
entries as there are characters are enough. -/
def parseChars? (cs : List Char) : Option Value :=
  match readValue (2 * cs.length + 2) cs with
  | some (v, rest) => if (skipBlank rest).isEmpty then some v else none
  | none => none

/-- The value that a text holds. -/
def parse? (s : String) : Option Value := parseChars? s.toList

end MutationTester.Json
