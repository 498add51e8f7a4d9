import MutationTester.Json.Decode
import Mathlib.Data.List.Basic
import Mathlib.Data.List.TakeDrop

/-!
# JSON that is written reads back

Whatever value is written, reading the text gives that value again, up to the last escape of half a
surrogate pair (`Json.parse?_toText`). The proof follows the grammar. A part of a text is read as it
was written, and what follows is left over, as long as it does not begin with a character that would
continue a number; behind a value only a comma or a closing bracket follows.
-/

set_option autoImplicit false

namespace MutationTester

/-- A text is read from its bytes. -/
theorem fromUTF8?_toUTF8 (s : String) : String.fromUTF8? s.toUTF8 = some s := by
  unfold String.fromUTF8?
  rw [String.toUTF8_eq_toByteArray, dif_pos s.isValidUTF8]
  rfl

namespace Json

/-! ## Strings -/

/-- The escape of a control character is the number of that character. -/
theorem unitValue?_hexDigit {n : Nat} (h : n < 0x20) :
    unitValue? '0' '0' (hexDigit (n / 16)) (hexDigit (n % 16)) = some n := by
  revert n
  decide

/-- An escaped character is read as that character. -/
theorem readPieces_escape (c : Char) (read : List Piece) (rest : List Char) :
    readPieces read (escape c ++ rest) = readPieces (.char c :: read) rest := by
  unfold escape
  by_cases hspecial : c = '"' ∨ c = '\\' ∨ c = '\x08' ∨ c = '\x0c' ∨ c = '\n' ∨ c = '\r' ∨ c = '\t'
  · rcases hspecial with rfl | rfl | rfl | rfl | rfl | rfl | rfl
    all_goals rfl
  · simp only [not_or] at hspecial
    obtain ⟨hquote, hbackslash, hb, hf, hn, hr, ht⟩ := hspecial
    simp only [hquote, hbackslash, hb, hf, hn, hr, ht, if_false]
    by_cases hcontrol : c.toNat < 0x20
    · have hunit : Piece.ofUnit c.toNat = .char c := by
        unfold Piece.ofUnit
        rw [if_neg (by omega), if_neg (by omega), Char.ofNat_toNat]
      simp only [if_pos hcontrol, List.cons_append, List.nil_append]
      rw [readPieces, unitValue?_hexDigit hcontrol]
      dsimp only
      rw [hunit]
    · rw [if_neg hcontrol, List.singleton_append, readPieces]
      · simp [hcontrol, hbackslash]
      -- neither the end of the text nor an escape
      · exact hquote
      · exact fun _ _ _ _ _ hc => absurd hc hbackslash
      · exact fun _ _ hc => absurd hc hbackslash

/-- Escaped characters are read up to the closing quote. -/
theorem readPieces_flatMap_escape (cs : List Char) (read : List Piece) (rest : List Char) :
    readPieces read (cs.flatMap escape ++ '"' :: rest) =
      some (read.reverse ++ cs.map .char, rest) := by
  induction cs generalizing read with
  | nil => simp [readPieces]
  | cons c cs ih =>
    rw [List.flatMap_cons, List.append_assoc, readPieces_escape, ih]
    simp

/-- Characters stand for themselves. -/
theorem charsOf_map_char (read cs : List Char) :
    charsOf read (cs.map .char) = some (read.reverse ++ cs) := by
  induction cs generalizing read with
  | nil => simp [charsOf]
  | cons c cs ih =>
    rw [List.map_cons, charsOf, ih]
    simp

/-- The literal of a string is read as that string, also if it denotes no text. -/
theorem readString_renderString (s : Option String) (rest : List Char) :
    ∃ literal, renderString s ++ rest = '"' :: literal ∧ readString literal = some (s, rest) := by
  cases s with
  | none => exact ⟨_, rfl, rfl⟩
  | some s =>
    refine ⟨s.toList.flatMap escape ++ '"' :: rest, by simp [renderString, quote], ?_⟩
    unfold readString
    rw [readPieces_flatMap_escape]
    simp [charsOf_map_char]

/-! ## Numbers -/

/-- What may follow a value: nothing, a comma or a closing bracket. -/
def Follows (rest : List Char) : Prop :=
  ∀ c cs, rest = c :: cs → c = ',' ∨ c = ']' ∨ c = '}'

/-- What does not begin with a digit ends a row of digits. -/
def EndsDigits (rest : List Char) : Prop := ∀ c cs, rest = c :: cs → c.isDigit = false

theorem Follows.endsDigits {rest : List Char} (h : Follows rest) : EndsDigits rest := by
  intro c cs hrest
  rcases h c cs hrest with rfl | rfl | rfl <;> rfl

theorem endsDigits_cons {c : Char} (h : c.isDigit = false) (cs : List Char) :
    EndsDigits (c :: cs) := by
  intro c' cs' hcons
  cases hcons
  exact h

/-- A row of digits is read as far as it goes. -/
theorem readDigits_append {ds rest : List Char} (hne : ds ≠ [])
    (hds : ∀ d ∈ ds, d.isDigit = true) (hrest : EndsDigits rest) :
    readDigits (ds ++ rest) = some (ds, rest) := by
  have hnone : rest.takeWhile Char.isDigit = [] ∧ rest.dropWhile Char.isDigit = rest := by
    cases rest with
    | nil => exact ⟨rfl, rfl⟩
    | cons c cs => simp [hrest c cs rfl]
  have hspan : (ds ++ rest).span Char.isDigit = (ds, rest) := by
    rw [List.span_eq_takeWhile_dropWhile, List.takeWhile_append_of_pos hds,
      List.dropWhile_append_of_pos hds, hnone.1, hnone.2, List.append_nil]
  unfold readDigits
  rw [hspan]
  simp [hne]

theorem isDigit_of_mem_toDigits {n : Nat} : ∀ d ∈ Nat.toDigits 10 n, d.isDigit = true :=
  fun _ => Nat.isDigit_of_mem_toDigits (by omega) (by omega)

/-- Only the digits of zero begin with a zero. -/
theorem eq_zero_of_head?_toDigits {n : Nat} (h : (Nat.toDigits 10 n).head? = some '0') : n = 0 := by
  induction n using Nat.strongRecOn with
  | ind n ih =>
    by_cases hlt : n < 10
    · rw [Nat.toDigits_of_lt_base hlt] at h
      exact Nat.digitChar_eq_zero.mp (Option.some.inj h)
    · -- the leading digit is that of the number without its last digit, which is not zero
      have hle : 10 ≤ n := by omega
      rw [Nat.toDigits_of_base_le (by omega) hle,
        List.head?_append_of_ne_nil _ Nat.toDigits_ne_nil] at h
      have hzero : n / 10 = 0 := ih (n / 10) (by omega) h
      omega

/-- The digits of a number are read as that number. -/
theorem readWhole_toDigits (n : Nat) {rest : List Char} (hrest : EndsDigits rest) :
    readWhole (Nat.toDigits 10 n ++ rest) = some (n, rest) := by
  have hplain : ¬((Nat.toDigits 10 n).head? = some '0' ∧ 1 < (Nat.toDigits 10 n).length) := by
    rintro ⟨hhead, hlength⟩
    rw [eq_zero_of_head?_toDigits hhead] at hlength
    revert hlength
    decide
  unfold readWhole
  rw [readDigits_append Nat.toDigits_ne_nil isDigit_of_mem_toDigits hrest]
  show (if _ then none else some (natOfDigits (Nat.toDigits 10 n), rest)) = _
  rw [if_neg hplain]
  unfold natOfDigits
  rw [Nat.ofDigitChars_ten_toDigits]

namespace Number

/-- The characters of the digits after the point, with the point. -/
def fractionText (ds : List (Fin 10)) : List Char :=
  if ds.isEmpty then [] else '.' :: ds.map fun d => d.val.digitChar

/-- The characters of a power of ten, with its mark. -/
def exponentText : Option Int → List Char
  | none => []
  | some e => ['e', if e < 0 then '-' else '+'] ++ Nat.toDigits 10 e.natAbs

/-- A literal is its sign, its digits before and after the point, and its power of ten. -/
theorem render_eq (n : Number) :
    n.render = (if n.negative then ['-'] else []) ++ Nat.toDigits 10 n.whole ++
      fractionText n.fraction ++ exponentText n.exponent := by
  cases n with
  | mk negative whole fraction exponent => cases exponent <;> rfl

end Number

open Number (fractionText exponentText digitOfChar)

/-- The digits of a power of ten are read as that power, with its sign. -/
theorem readPower_toDigits (negative : Bool) (n : Nat) {rest : List Char} (h : Follows rest) :
    readPower negative (Nat.toDigits 10 n ++ rest) =
      some (some (if negative then -(n : Int) else n), rest) := by
  have hvalue : natOfDigits (Nat.toDigits 10 n) = n := Nat.ofDigitChars_ten_toDigits
  unfold readPower
  rw [readDigits_append Nat.toDigits_ne_nil isDigit_of_mem_toDigits h.endsDigits, Option.map_some]
  dsimp only
  rw [hvalue]

/-- A power of ten is read as it was written. -/
theorem readExponent_exponentText (e : Option Int) {rest : List Char} (h : Follows rest) :
    readExponent (exponentText e ++ rest) = some (e, rest) := by
  cases e with
  | none =>
    show readExponent rest = _
    cases rest with
    | nil => rfl
    | cons c cs => rcases h c cs rfl with rfl | rfl | rfl <;> rfl
  | some e =>
    by_cases hneg : e < 0
    · have htext : exponentText (some e) = 'e' :: '-' :: Nat.toDigits 10 e.natAbs := by
        simp [exponentText, hneg]
      have hvalue : -(e.natAbs : Int) = e := by omega
      rw [htext]
      show readPower true (Nat.toDigits 10 e.natAbs ++ rest) = _
      rw [readPower_toDigits true _ h, if_pos rfl, hvalue]
    · have htext : exponentText (some e) = 'e' :: '+' :: Nat.toDigits 10 e.natAbs := by
        simp [exponentText, hneg]
      have hvalue : (e.natAbs : Int) = e := by omega
      rw [htext]
      show readPower false (Nat.toDigits 10 e.natAbs ++ rest) = _
      rw [readPower_toDigits false _ h, if_neg Bool.false_ne_true, hvalue]

/-- Behind the digits of a number no further digit follows, and behind those after a point no
further point. -/
theorem head_exponentText (e : Option Int) {rest : List Char} (h : Follows rest) :
    ∀ c cs, exponentText e ++ rest = c :: cs → c.isDigit = false ∧ c ≠ '.' := by
  intro c cs hcons
  cases e with
  | none => rcases h c cs hcons with rfl | rfl | rfl <;> decide
  | some e =>
    cases hcons
    decide

/-- The character of a digit stands for that digit. -/
theorem digit_digitChar (d : Fin 10) :
    d.val.digitChar.isDigit = true ∧ digitOfChar d.val.digitChar = d := by
  revert d
  decide

/-- The digits after a point are read as they were written. -/
theorem readFraction_fractionText (ds : List (Fin 10)) {rest : List Char}
    (h : ∀ c cs, rest = c :: cs → c.isDigit = false ∧ c ≠ '.') :
    readFraction (fractionText ds ++ rest) = some (ds, rest) := by
  cases ds with
  | nil =>
    show readFraction rest = _
    unfold readFraction
    split
    next cs => exact absurd rfl (h '.' cs rfl).2
    next => rfl
  | cons d ds =>
    have hdigits : ∀ c ∈ (d :: ds).map fun d => d.val.digitChar, c.isDigit = true := by
      intro c hc
      obtain ⟨d, -, rfl⟩ := List.mem_map.mp hc
      exact (digit_digitChar d).1
    have hback : ((d :: ds).map fun d => d.val.digitChar).map digitOfChar = d :: ds := by
      rw [List.map_map]
      exact (List.map_congr_left fun d _ => (digit_digitChar d).2).trans (List.map_id _)
    have hread := readDigits_append (by simp) hdigits fun c cs hcons => (h c cs hcons).1
    show (readDigits (((d :: ds).map fun d => d.val.digitChar) ++ rest)).map _ = _
    rw [hread, Option.map_some]
    dsimp only
    rw [hback]

/-- A number without its sign is read as it was written. -/
theorem readUnsigned_render (n : Number) {rest : List Char} (h : Follows rest) :
    readUnsigned n.negative (Nat.toDigits 10 n.whole ++
      (fractionText n.fraction ++ (exponentText n.exponent ++ rest))) = some (n, rest) := by
  have hexponent := head_exponentText n.exponent h
  have hfraction : EndsDigits (fractionText n.fraction ++ (exponentText n.exponent ++ rest)) := by
    cases hds : n.fraction with
    | nil => exact fun c cs hcons => (hexponent c cs hcons).1
    | cons d ds => exact endsDigits_cons (by decide) _
  unfold readUnsigned
  rw [readWhole_toDigits n.whole hfraction]
  show (readFraction _ >>= _) = _
  rw [readFraction_fractionText n.fraction hexponent]
  show (readExponent _ >>= _) = _
  rw [readExponent_exponentText n.exponent h]
  rfl

/-- A number begins with a digit or with the minus sign. -/
theorem exists_head_number (n : Number) :
    ∃ c cs, n.render = c :: cs ∧ (c.isDigit = true ∨ c = '-') := by
  rw [Number.render_eq]
  cases n.negative with
  | true => exact ⟨'-', _, rfl, .inr rfl⟩
  | false =>
    obtain ⟨d, ds, hds⟩ := List.exists_cons_of_ne_nil (@Nat.toDigits_ne_nil n.whole 10)
    refine ⟨d, ds ++ fractionText n.fraction ++ exponentText n.exponent, by simp [hds], .inl ?_⟩
    exact isDigit_of_mem_toDigits d (by rw [hds]; exact List.mem_cons_self)

/-- A number is read as it was written. -/
theorem readNumber_render (n : Number) {rest : List Char} (h : Follows rest) :
    readNumber (n.render ++ rest) = some (n, rest) := by
  have hread := readUnsigned_render n h
  obtain ⟨d, ds, hds⟩ := List.exists_cons_of_ne_nil (@Nat.toDigits_ne_nil n.whole 10)
  have hdigit : d.isDigit = true := isDigit_of_mem_toDigits d (by rw [hds]; exact List.mem_cons_self)
  rw [Number.render_eq]
  simp only [List.append_assoc]
  cases hneg : n.negative with
  | true =>
    rw [hneg] at hread
    exact hread
  | false =>
    rw [hneg] at hread
    have hunsigned : ∀ cs, readNumber (d :: cs) = readUnsigned false (d :: cs) := by
      intro cs
      unfold readNumber
      split
      next hminus =>
        cases hminus
        cases hdigit
      next => rfl
    rw [if_neg Bool.false_ne_true, List.nil_append]
    rw [hds] at hread ⊢
    exact (hunsigned _).trans hread

/-! ## Values -/

theorem skipBlank_cons {c : Char} (h : isBlank c = false) (cs : List Char) :
    skipBlank (c :: cs) = c :: cs := by
  simp [skipBlank, h]

/-- A digit or a minus sign begins no other value than a number. -/
theorem number_head {c : Char} (h : c.isDigit = true ∨ c = '-') :
    isBlank c = false ∧ c ≠ '"' ∧ c ≠ '[' ∧ c ≠ ']' ∧ c ≠ '{' ∧ c ≠ 'n' ∧ c ≠ 't' ∧
      c ≠ 'f' := by
  rcases h with h | rfl
  · have hne : ∀ b : Char, b.isDigit = false → c ≠ b := by
      rintro b hb rfl
      exact Bool.false_ne_true (hb.symm.trans h)
    have hblank : isBlank c = false := by
      simp [isBlank, hne ' ' rfl, hne '\t' rfl, hne '\n' rfl, hne '\r' rfl]
    exact ⟨hblank, hne _ rfl, hne _ rfl, hne _ rfl, hne _ rfl, hne _ rfl, hne _ rfl, hne _ rfl⟩
  · decide

/-- The text of a value begins with neither a blank nor a closing bracket. -/
theorem exists_head_render (v : Value) :
    ∃ c cs, v.render = c :: cs ∧ isBlank c = false ∧ c ≠ ']' := by
  cases v with
  | null => exact ⟨_, _, rfl, rfl, by decide⟩
  | bool b => cases b <;> exact ⟨_, _, rfl, rfl, by decide⟩
  | number n =>
    obtain ⟨c, cs, hrender, hhead⟩ := exists_head_number n
    have hc := number_head hhead
    exact ⟨c, cs, hrender, hc.1, hc.2.2.2.1⟩
  | string s => cases s <;> exact ⟨_, _, rfl, rfl, by decide⟩
  | array items => exact ⟨_, _, rfl, rfl, by decide⟩
  | object members => exact ⟨_, _, rfl, rfl, by decide⟩

/-- A key is read as it was written. -/
theorem readKey_renderString (key : Option String) (rest : List Char) :
    readKey (renderString key ++ ':' :: rest) = some (key, rest) := by
  obtain ⟨literal, htext, hread⟩ := readString_renderString key (':' :: rest)
  unfold readKey
  rw [htext, skipBlank_cons rfl]
  show (readString literal >>= _) = _
  rw [hread]
  rfl

theorem follows_comma (cs : List Char) : Follows (',' :: cs) := by
  intro c cs' hcons
  cases hcons
  exact .inl rfl

theorem follows_bracket (cs : List Char) : Follows (']' :: cs) := by
  intro c cs' hcons
  cases hcons
  exact .inr (.inl rfl)

theorem follows_brace (cs : List Char) : Follows ('}' :: cs) := by
  intro c cs' hcons
  cases hcons
  exact .inr (.inr rfl)

theorem follows_nil : Follows [] := by
  intro c cs hcons
  cases hcons

section Entries

variable {fuel : Nat} {cs rest rest' : List Char} {v : Value} {key : Option String}

/-- What stands behind an opening bracket are items, unless it is closed at once. -/
theorem readValue_bracket {c : Char} (hblank : isBlank c = false) (hc : c ≠ ']') :
    readValue (fuel + 1) ('[' :: c :: cs) = readItems fuel [] (c :: cs) := by
  rw [readValue, skipBlank_cons rfl]
  dsimp only
  rw [if_neg (by decide), if_pos rfl, skipBlank_cons hblank]
  split
  next hclosed =>
    cases hclosed
    exact absurd rfl hc
  next => rfl

/-- What stands behind an opening brace are members, unless it is closed at once. -/
theorem readValue_brace : readValue (fuel + 1) ('{' :: '"' :: cs) = readMembers fuel [] ('"' :: cs) :=
  rfl

/-- An item before a comma is not the last. -/
theorem readItems_of_comma (hv : readValue fuel cs = some (v, ',' :: rest)) (read : List Value) :
    readItems (fuel + 1) read cs = readItems fuel (v :: read) rest := by
  rw [readItems, hv]
  rfl

/-- An item before a closing bracket is the last. -/
theorem readItems_of_bracket (hv : readValue fuel cs = some (v, ']' :: rest)) (read : List Value) :
    readItems (fuel + 1) read cs = some (.array (v :: read).reverse, rest) := by
  rw [readItems, hv]
  rfl

/-- A member before a comma is not the last. -/
theorem readMembers_of_comma (hkey : readKey cs = some (key, rest))
    (hv : readValue fuel rest = some (v, ',' :: rest')) (read : List (Option String × Value)) :
    readMembers (fuel + 1) read cs = readMembers fuel ((key, v) :: read) rest' := by
  rw [readMembers, hkey]
  dsimp only
  rw [hv]
  rfl

/-- A member before a closing brace is the last. -/
theorem readMembers_of_brace (hkey : readKey cs = some (key, rest))
    (hv : readValue fuel rest = some (v, '}' :: rest')) (read : List (Option String × Value)) :
    readMembers (fuel + 1) read cs = some (.object ((key, v) :: read).reverse, rest') := by
  rw [readMembers, hkey]
  dsimp only
  rw [hv]
  rfl

end Entries

/-- The texts of several items begin with that of the first, and a comma stands before the
others. -/
theorem renderItems_cons (v : Value) (vs : List Value) :
    Value.renderItems (v :: vs) =
      v.render ++ if vs = [] then [] else ',' :: Value.renderItems vs := by
  cases vs with
  | nil => exact (List.append_nil _).symm
  | cons w ws => rfl

/-- The texts of several members begin with that of the first, and a comma stands before the
others. -/
theorem renderMembers_cons (key : Option String) (v : Value)
    (ms : List (Option String × Value)) :
    Value.renderMembers ((key, v) :: ms) =
      renderString key ++ ':' :: (v.render ++ if ms = [] then [] else
        ',' :: Value.renderMembers ms) := by
  cases ms with
  | nil => simp [Value.renderMembers]
  | cons m ms => rfl

mutual

/-- A value is read as it was written, if twice as many entries are allowed as it has
characters. -/
theorem readValue_render (v : Value) {fuel : Nat} (hfuel : 2 * v.render.length ≤ fuel)
    {rest : List Char} (hrest : Follows rest) :
    readValue fuel (v.render ++ rest) = some (v, rest) := by
  obtain ⟨c, cs, hhead, -⟩ := exists_head_render v
  have hpos : 0 < v.render.length := by simp [hhead]
  obtain ⟨fuel, rfl⟩ : ∃ n, fuel = n + 1 := ⟨fuel - 1, by omega⟩
  cases v with
  | null => rfl
  | bool b => cases b <;> rfl
  | number n =>
    obtain ⟨c, cs, htext, hhead⟩ := exists_head_number n
    obtain ⟨hblank, hquote, harray, -, hobject, hn, ht, hf⟩ := number_head hhead
    have hread := readNumber_render n hrest
    show readValue (fuel + 1) (n.render ++ rest) = _
    rw [htext, List.cons_append] at hread ⊢
    rw [readValue, skipBlank_cons hblank]
    simp only [hquote, harray, hobject, hn, ht, hf, if_false, hread, Option.map_some]
  | string s =>
    obtain ⟨literal, htext, hread⟩ := readString_renderString s rest
    show readValue (fuel + 1) (renderString s ++ rest) = _
    rw [htext, readValue, skipBlank_cons rfl]
    simp only [if_true, hread, Option.map_some]
  | array items =>
    have htext : (Value.array items).render ++ rest =
        '[' :: (Value.renderItems items ++ ']' :: rest) := by simp [Value.render]
    have hlength : 2 * (Value.renderItems items).length + 1 ≤ fuel := by
      simp [Value.render] at hfuel
      omega
    rw [htext]
    cases items with
    | nil => rfl
    | cons v vs =>
      have hitems := readItems_render (v :: vs) (List.cons_ne_nil v vs) hlength [] rest
      obtain ⟨c, cs, hv, hblank, hbracket⟩ := exists_head_render v
      rw [renderItems_cons, hv, List.cons_append, List.cons_append] at hitems ⊢
      rw [readValue_bracket hblank hbracket, hitems]
      rfl
  | object members =>
    have htext : (Value.object members).render ++ rest =
        '{' :: (Value.renderMembers members ++ '}' :: rest) := by simp [Value.render]
    have hlength : 2 * (Value.renderMembers members).length + 1 ≤ fuel := by
      simp [Value.render] at hfuel
      omega
    rw [htext]
    cases members with
    | nil => rfl
    | cons m ms =>
      obtain ⟨key, v⟩ := m
      have hmembers := readMembers_render ((key, v) :: ms) (List.cons_ne_nil _ ms) hlength [] rest
      obtain ⟨literal, hkey, -⟩ := readString_renderString key []
      rw [List.append_nil] at hkey
      rw [renderMembers_cons, hkey, List.cons_append, List.cons_append] at hmembers ⊢
      rw [readValue_brace, hmembers]
      rfl
termination_by structural v

/-- The items of an array are read as they were written. -/
theorem readItems_render (items : List Value) (hne : items ≠ []) {fuel : Nat}
    (hfuel : 2 * (Value.renderItems items).length + 1 ≤ fuel) (read : List Value)
    (rest : List Char) :
    readItems fuel read (Value.renderItems items ++ ']' :: rest) =
      some (.array (read.reverse ++ items), rest) := by
  obtain ⟨fuel, rfl⟩ : ∃ n, fuel = n + 1 := ⟨fuel - 1, by omega⟩
  cases items with
  | nil => exact absurd rfl hne
  | cons v vs =>
    rw [renderItems_cons, List.length_append] at hfuel
    rw [renderItems_cons, List.append_assoc]
    have hvfuel : 2 * v.render.length ≤ fuel := by omega
    by_cases hvs : vs = []
    · subst hvs
      have hv := readValue_render v hvfuel (follows_bracket rest)
      rw [if_pos rfl, List.nil_append, readItems_of_bracket hv, List.reverse_cons]
    · rw [if_neg hvs, List.length_cons] at hfuel
      have hv := readValue_render v hvfuel
        (follows_comma (Value.renderItems vs ++ ']' :: rest))
      have hvsfuel : 2 * (Value.renderItems vs).length + 1 ≤ fuel := by omega
      have hitems := readItems_render vs hvs hvsfuel (v :: read) rest
      rw [if_neg hvs, List.cons_append, readItems_of_comma hv, hitems]
      simp
termination_by structural items

/-- The members of an object are read as they were written. -/
theorem readMembers_render (members : List (Option String × Value)) (hne : members ≠ [])
    {fuel : Nat} (hfuel : 2 * (Value.renderMembers members).length + 1 ≤ fuel)
    (read : List (Option String × Value)) (rest : List Char) :
    readMembers fuel read (Value.renderMembers members ++ '}' :: rest) =
      some (.object (read.reverse ++ members), rest) := by
  obtain ⟨fuel, rfl⟩ : ∃ n, fuel = n + 1 := ⟨fuel - 1, by omega⟩
  match members with
  | [] => exact absurd rfl hne
  | (key, v) :: ms =>
    rw [renderMembers_cons, List.length_append, List.length_cons, List.length_append] at hfuel
    rw [renderMembers_cons, List.append_assoc, List.cons_append, List.append_assoc]
    have hvfuel : 2 * v.render.length ≤ fuel := by omega
    by_cases hms : ms = []
    · subst hms
      have hv := readValue_render v hvfuel (follows_brace rest)
      rw [if_pos rfl, List.nil_append, readMembers_of_brace (readKey_renderString key _) hv,
        List.reverse_cons]
    · rw [if_neg hms, List.length_cons] at hfuel
      have hv := readValue_render v hvfuel
        (follows_comma (Value.renderMembers ms ++ '}' :: rest))
      have hmsfuel : 2 * (Value.renderMembers ms).length + 1 ≤ fuel := by omega
      have hmembers := readMembers_render ms hms hmsfuel ((key, v) :: read) rest
      rw [if_neg hms, List.cons_append, readMembers_of_comma (readKey_renderString key _) hv,
        hmembers]
      simp
termination_by structural members

end

/-- Every value reads back from its text. -/
theorem parse?_toText (v : Value) : parse? v.toText = some v := by
  have hfuel : 2 * v.render.length ≤ 2 * v.render.length + 2 := by omega
  have hread := readValue_render v hfuel follows_nil
  unfold parse? parseChars? Value.toText
  rw [List.append_nil] at hread
  rw [String.toList_ofList, hread]
  rfl

end Json

end MutationTester
