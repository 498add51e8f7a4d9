import MutationTester.Proofs.Json.Reading

/-!
# JSON that is cut short does not read

What has been read is read in the same way if more follows, since each part of a text shows by
itself where it ends (`Json.readValue_append`). Only a number does not: it goes on for as long as
there are digits, so something has to stand behind it. An object that could be read from a text cut
short would therefore end there in the whole text as well, but the whole text is read to its end.
So no strict prefix of the text of an object is read (`Json.parse?_eq_none_of_append`).
-/

set_option autoImplicit false

namespace MutationTester.Json

section Parts

variable (more : List Char)

/-- What stands behind blanks is found whatever follows it. -/
theorem skipBlank_append {cs tail : List Char} {c : Char} (h : skipBlank cs = c :: tail) :
    skipBlank (cs ++ more) = c :: (tail ++ more) := by
  induction cs with
  | nil => cases h
  | cons b cs ih =>
    unfold skipBlank at h ih ⊢
    rw [List.dropWhile_cons] at h
    rw [List.cons_append, List.dropWhile_cons]
    split at h
    next hblank => rw [if_pos hblank, ih h]
    next hblank =>
      rw [if_neg hblank]
      cases h
      rfl

theorem skipWord_append {ws cs rest : List Char} (h : skipWord ws cs = some rest) :
    skipWord ws (cs ++ more) = some (rest ++ more) := by
  induction ws generalizing cs with
  | nil =>
    cases h
    rfl
  | cons w ws ih =>
    cases cs with
    | nil => cases h
    | cons c cs =>
      rw [skipWord] at h
      rw [List.cons_append, skipWord]
      split at h
      next hc => rw [if_pos hc, ih h]
      next => cases h

/-- A value that is written as a word is read whatever follows the word. -/
theorem map_skipWord_append {ws cs rest : List Char} {v w : Value}
    (h : (skipWord ws cs).map (fun rest => (w, rest)) = some (v, rest)) :
    (skipWord ws (cs ++ more)).map (fun rest => (w, rest)) = some (v, rest ++ more) := by
  obtain ⟨after, hafter, hv⟩ := Option.map_eq_some_iff.mp h
  cases hv
  rw [skipWord_append more hafter, Option.map_some]

/-- A literal ends at its closing quote, so what follows it makes no difference. -/
theorem readPieces_append {read pieces : List Piece} {cs rest : List Char}
    (h : readPieces read cs = some (pieces, rest)) :
    readPieces read (cs ++ more) = some (pieces, rest ++ more) := by
  fun_induction readPieces read cs with
  | case1 => cases h
  | case2 read cs =>
    cases h
    rfl
  | case3 read a b c d cs n hunit ih =>
    simp only [List.cons_append]
    rw [readPieces, hunit]
    exact ih h
  | case4 => cases h
  | case5 read e cs hunicode c hescape ih =>
    have hne : e ≠ 'u' := by
      rintro rfl
      cases hescape
    simp only [List.cons_append]
    rw [readPieces, hescape]
    · exact ih h
    · intro a b c d cs' he
      exact absurd he hne
  | case6 => cases h
  | case7 => cases h
  | case8 read c cs hquote hunicode hescape hplain ih =>
    rw [not_or] at hplain
    simp only [List.cons_append]
    rw [readPieces]
    · rw [if_neg (not_or.mpr hplain)]
      exact ih h
    · exact hquote
    · exact fun _ _ _ _ _ hc => absurd hc hplain.2
    · exact fun _ _ hc => absurd hc hplain.2

theorem readString_append {cs rest : List Char} {s : Option String}
    (h : readString cs = some (s, rest)) :
    readString (cs ++ more) = some (s, rest ++ more) := by
  unfold readString at h ⊢
  obtain ⟨⟨pieces, tail⟩, hpieces, hs⟩ := Option.map_eq_some_iff.mp h
  cases hs
  rw [readPieces_append more hpieces, Option.map_some]

theorem readKey_append {cs rest : List Char} {key : Option String}
    (h : readKey cs = some (key, rest)) : readKey (cs ++ more) = some (key, rest ++ more) := by
  unfold readKey at h ⊢
  split at h
  next literal hquote =>
    obtain ⟨⟨s, tail⟩, hs, hcolon⟩ := Option.bind_eq_some_iff.mp h
    rw [skipBlank_append more hquote]
    simp only [readString_append more hs, Option.bind_eq_bind, Option.bind_some]
    dsimp only at hcolon
    split at hcolon
    next after hafter =>
      cases hcolon
      rw [skipBlank_append more hafter]
      rfl
    next => cases hcolon
  next => cases h

/-! ## Numbers -/

/-- A row of digits ends where something else stands, whatever follows that. -/
theorem readDigits_append_of_ne_nil {cs ds rest : List Char}
    (h : readDigits cs = some (ds, rest)) (hrest : rest ≠ []) :
    readDigits (cs ++ more) = some (ds, rest ++ more) := by
  unfold readDigits at h
  dsimp only at h
  split at h
  next => cases h
  next hne =>
    rw [List.span_eq_takeWhile_dropWhile, Option.some.injEq, Prod.mk.injEq] at h
    rw [List.span_eq_takeWhile_dropWhile] at hne
    obtain ⟨hds, htail⟩ := h
    dsimp only at hds htail hne
    have hsplit : cs ++ more = ds ++ (rest ++ more) := by
      rw [← hds, ← htail, ← List.append_assoc, List.takeWhile_append_dropWhile]
    rw [hsplit]
    refine readDigits_append ?_ ?_ ?_
    · rw [← hds]
      exact fun hnil => hne (List.isEmpty_iff.mpr hnil)
    · intro d hd
      rw [← hds] at hd
      exact List.all_eq_true.mp List.all_takeWhile d hd
    · obtain ⟨c, tail, rfl⟩ := List.exists_cons_of_ne_nil hrest
      refine endsDigits_cons ?_ _
      have := List.head?_dropWhile_not Char.isDigit cs
      rw [htail] at this
      simpa using this

theorem readWhole_append {cs rest : List Char} {n : Nat} (h : readWhole cs = some (n, rest))
    (hrest : rest ≠ []) : readWhole (cs ++ more) = some (n, rest ++ more) := by
  unfold readWhole at h ⊢
  obtain ⟨⟨ds, tail⟩, hds, hn⟩ := Option.bind_eq_some_iff.mp h
  dsimp only at hn
  split at hn
  next => cases hn
  next hplain =>
    cases hn
    rw [readDigits_append_of_ne_nil more hds hrest]
    exact if_neg hplain

/-- What begins with another character still does when more follows it. -/
theorem ne_cons_append {cs : List Char} {b : Char} (hne : cs ≠ [])
    (h : ∀ tail, cs = b :: tail → False) : ∀ tail, cs ++ more = b :: tail → False := by
  obtain ⟨c, tail, rfl⟩ := List.exists_cons_of_ne_nil hne
  intro tail' hcons
  cases hcons
  exact h tail rfl

theorem readFraction_append {cs rest : List Char} {ds : List (Fin 10)}
    (h : readFraction cs = some (ds, rest)) (hrest : rest ≠ []) :
    readFraction (cs ++ more) = some (ds, rest ++ more) := by
  fun_cases readFraction cs with
  | case1 cs =>
    obtain ⟨⟨digits, tail⟩, hdigits, hds⟩ := Option.map_eq_some_iff.mp h
    cases hds
    rw [List.cons_append, readFraction, readDigits_append_of_ne_nil more hdigits hrest,
      Option.map_some]
  | case2 cs hpoint =>
    rw [readFraction.eq_2 cs hpoint] at h
    cases h
    exact readFraction.eq_2 _ (ne_cons_append more hrest hpoint)

theorem readPower_append {negative : Bool} {cs rest : List Char} {e : Option Int}
    (h : readPower negative cs = some (e, rest)) (hrest : rest ≠ []) :
    readPower negative (cs ++ more) = some (e, rest ++ more) := by
  unfold readPower at h ⊢
  obtain ⟨⟨ds, tail⟩, hds, he⟩ := Option.map_eq_some_iff.mp h
  cases he
  rw [readDigits_append_of_ne_nil more hds hrest, Option.map_some]

theorem readSignedPower_append {cs rest : List Char} {e : Option Int}
    (h : readSignedPower cs = some (e, rest)) (hrest : rest ≠ []) :
    readSignedPower (cs ++ more) = some (e, rest ++ more) := by
  fun_cases readSignedPower cs with
  | case1 cs => exact readPower_append more h hrest
  | case2 cs => exact readPower_append more h hrest
  | case3 cs hminus hplus =>
    have hne : cs ≠ [] := by
      rintro rfl
      cases h
    rw [readSignedPower.eq_3 cs hminus hplus] at h
    rw [readSignedPower.eq_3 _ (ne_cons_append more hne hminus) (ne_cons_append more hne hplus)]
    exact readPower_append more h hrest

theorem readExponent_append {cs rest : List Char} {e : Option Int}
    (h : readExponent cs = some (e, rest)) (hrest : rest ≠ []) :
    readExponent (cs ++ more) = some (e, rest ++ more) := by
  fun_cases readExponent cs with
  | case1 cs => exact readSignedPower_append more h hrest
  | case2 cs => exact readSignedPower_append more h hrest
  | case3 cs hlower hupper =>
    rw [readExponent.eq_3 cs hlower hupper] at h
    cases h
    rw [readExponent.eq_3 _ (ne_cons_append more hrest hlower) (ne_cons_append more hrest hupper)]

theorem readUnsigned_append {negative : Bool} {cs rest : List Char} {n : Number}
    (h : readUnsigned negative cs = some (n, rest)) (hrest : rest ≠ []) :
    readUnsigned negative (cs ++ more) = some (n, rest ++ more) := by
  unfold readUnsigned at h ⊢
  simp only [Option.bind_eq_bind, Option.bind_eq_some_iff, Prod.exists] at h
  obtain ⟨whole, afterWhole, hwhole, fraction, afterFraction, hfraction, exponent, rest',
    hexponent, hn⟩ := h
  cases hn
  have hafterFraction : afterFraction ≠ [] := by
    rintro rfl
    cases hexponent
    exact hrest rfl
  have hafterWhole : afterWhole ≠ [] := by
    rintro rfl
    cases hfraction
    exact hafterFraction rfl
  rw [readWhole_append more hwhole hafterWhole]
  simp only [Option.bind_eq_bind, Option.bind_some,
    readFraction_append more hfraction hafterFraction, readExponent_append more hexponent hrest]
  rfl

/-- A number ends where something else stands, whatever follows that. -/
theorem readNumber_append {cs rest : List Char} {n : Number}
    (h : readNumber cs = some (n, rest)) (hrest : rest ≠ []) :
    readNumber (cs ++ more) = some (n, rest ++ more) := by
  fun_cases readNumber cs with
  | case1 cs => exact readUnsigned_append more h hrest
  | case2 cs hminus =>
    have hne : cs ≠ [] := by
      rintro rfl
      cases h
    rw [readNumber.eq_2 cs hminus] at h
    rw [readNumber.eq_2 _ (ne_cons_append more hne hminus)]
    exact readUnsigned_append more h hrest

/-! ## Values -/

theorem skipBlank_ne_nil_of_readValue {fuel : Nat} {cs : List Char} {r : Value × List Char}
    (h : readValue fuel cs = some r) : skipBlank cs ≠ [] := by
  intro hnil
  cases fuel with
  | zero => cases h
  | succ fuel =>
    rw [readValue, hnil] at h
    cases h

theorem skipBlank_ne_nil_of_readKey {cs : List Char} {r : Option String × List Char}
    (h : readKey cs = some r) : skipBlank cs ≠ [] := by
  intro hnil
  unfold readKey at h
  rw [hnil] at h
  cases h

/-- What begins behind blanks with another character than `b` still does when more follows it. -/
theorem skipBlank_append_ne {cs : List Char} {b : Char} (hne : skipBlank cs ≠ [])
    (h : ∀ tail, skipBlank cs = b :: tail → False) :
    ∀ tail, skipBlank (cs ++ more) = b :: tail → False := by
  obtain ⟨c, tail, hcs⟩ := List.exists_cons_of_ne_nil hne
  rw [skipBlank_append more hcs]
  intro tail' hcons
  cases hcons
  exact h tail hcs

theorem skipBlank_ne_nil_of_readItems {fuel : Nat} {read : List Value} {cs : List Char}
    {r : Value × List Char} (h : readItems fuel read cs = some r) : skipBlank cs ≠ [] := by
  cases fuel with
  | zero => cases h
  | succ fuel =>
    rw [readItems] at h
    split at h
    next => cases h
    next v rest hv => exact skipBlank_ne_nil_of_readValue hv

theorem skipBlank_ne_nil_of_readMembers {fuel : Nat} {read : List (Option String × Value)}
    {cs : List Char} {r : Value × List Char} (h : readMembers fuel read cs = some r) :
    skipBlank cs ≠ [] := by
  cases fuel with
  | zero => cases h
  | succ fuel =>
    rw [readMembers] at h
    split at h
    next => cases h
    next key rest hkey => exact skipBlank_ne_nil_of_readKey hkey

mutual

/-- A value is read in the same way when more follows, and with more fuel, if it is plain where it
ends: something else stands behind it, or it is an object. -/
theorem readValue_append {fuel fuel' : Nat} (hfuel : fuel ≤ fuel') {cs rest : List Char}
    {v : Value} (h : readValue fuel cs = some (v, rest))
    (hends : rest ≠ [] ∨ ∃ members, v = .object members) :
    readValue fuel' (cs ++ more) = some (v, rest ++ more) := by
  match fuel, fuel', hfuel with
  | 0, _, _ => cases h
  | fuel + 1, fuel' + 1, hfuel =>
    have hfuel : fuel ≤ fuel' := Nat.le_of_succ_le_succ hfuel
    obtain ⟨c, tail, hcs⟩ := List.exists_cons_of_ne_nil (skipBlank_ne_nil_of_readValue h)
    rw [readValue, hcs] at h
    rw [readValue, skipBlank_append more hcs]
    dsimp only at h ⊢
    split at h
    next hquote =>
      obtain ⟨⟨s, after⟩, hs, hv⟩ := Option.map_eq_some_iff.mp h
      cases hv
      rw [if_pos hquote, readString_append more hs, Option.map_some]
    next hquote =>
    rw [if_neg hquote]
    split at h
    next harray =>
      rw [if_pos harray]
      split at h
      next after hafter =>
        cases h
        rw [skipBlank_append more hafter]
        rfl
      next hopen =>
        split
        next after hafter =>
          exact (skipBlank_append_ne more (skipBlank_ne_nil_of_readItems h) hopen _ hafter).elim
        next => exact readItems_append hfuel h
    next harray =>
    rw [if_neg harray]
    split at h
    next hobject =>
      rw [if_pos hobject]
      split at h
      next after hafter =>
        cases h
        rw [skipBlank_append more hafter]
        rfl
      next hopen =>
        split
        next after hafter =>
          exact (skipBlank_append_ne more (skipBlank_ne_nil_of_readMembers h) hopen _ hafter).elim
        next => exact readMembers_append hfuel h
    next hobject =>
    rw [if_neg hobject]
    split at h
    next hnull =>
      rw [if_pos hnull]
      exact map_skipWord_append more h
    next hnull =>
    rw [if_neg hnull]
    split at h
    next htrue =>
      rw [if_pos htrue]
      exact map_skipWord_append more h
    next htrue =>
    rw [if_neg htrue]
    split at h
    next hfalse =>
      rw [if_pos hfalse]
      exact map_skipWord_append more h
    next hfalse =>
      obtain ⟨⟨n, after⟩, hn, hv⟩ := Option.map_eq_some_iff.mp h
      cases hv
      have hafter : after ≠ [] := by
        rcases hends with hafter | ⟨members, hmembers⟩
        · exact hafter
        · cases hmembers
      rw [if_neg hfalse, ← List.cons_append, readNumber_append more hn hafter, Option.map_some]

/-- Items are read in the same way when more follows the bracket that closes them. -/
theorem readItems_append {fuel fuel' : Nat} (hfuel : fuel ≤ fuel') {read : List Value}
    {cs rest : List Char} {v : Value} (h : readItems fuel read cs = some (v, rest)) :
    readItems fuel' read (cs ++ more) = some (v, rest ++ more) := by
  match fuel, fuel', hfuel with
  | 0, _, _ => cases h
  | fuel + 1, fuel' + 1, hfuel =>
    have hfuel : fuel ≤ fuel' := Nat.le_of_succ_le_succ hfuel
    rw [readItems] at h ⊢
    split at h
    next => cases h
    next item afterItem hitem =>
      have hafterItem : afterItem ≠ [] := by
        rintro rfl
        cases h
      rw [readValue_append hfuel hitem (.inl hafterItem)]
      dsimp only
      split at h
      next after hcomma =>
        rw [skipBlank_append more hcomma]
        exact readItems_append hfuel h
      next after hclosed =>
        cases h
        rw [skipBlank_append more hclosed]
        rfl
      next => cases h

/-- Members are read in the same way when more follows the brace that closes them. -/
theorem readMembers_append {fuel fuel' : Nat} (hfuel : fuel ≤ fuel')
    {read : List (Option String × Value)} {cs rest : List Char} {v : Value}
    (h : readMembers fuel read cs = some (v, rest)) :
    readMembers fuel' read (cs ++ more) = some (v, rest ++ more) := by
  match fuel, fuel', hfuel with
  | 0, _, _ => cases h
  | fuel + 1, fuel' + 1, hfuel =>
    have hfuel : fuel ≤ fuel' := Nat.le_of_succ_le_succ hfuel
    rw [readMembers] at h ⊢
    split at h
    next => cases h
    next key afterKey hkey =>
      rw [readKey_append more hkey]
      dsimp only
      split at h
      next => cases h
      next value afterValue hvalue =>
        have hafterValue : afterValue ≠ [] := by
          rintro rfl
          cases h
        rw [readValue_append hfuel hvalue (.inl hafterValue)]
        dsimp only
        split at h
        next after hcomma =>
          rw [skipBlank_append more hcomma]
          exact readMembers_append hfuel h
        next after hclosed =>
          cases h
          rw [skipBlank_append more hclosed]
          rfl
        next => cases h

end

end Parts

/-- What stands behind an opening brace is read as an object, if it is read. -/
theorem exists_object_of_readMembers {fuel : Nat} {read : List (Option String × Value)}
    {cs rest : List Char} {v : Value} (h : readMembers fuel read cs = some (v, rest)) :
    ∃ members, v = .object members := by
  induction fuel generalizing read cs with
  | zero => cases h
  | succ fuel ih =>
    rw [readMembers] at h
    split at h
    next => cases h
    next key afterKey hkey =>
      split at h
      next => cases h
      next value afterValue hvalue =>
        split at h
        next => exact ih h
        next =>
          cases h
          exact ⟨_, rfl⟩
        next => cases h

theorem exists_object_of_readValue {fuel : Nat} {cs rest : List Char} {v : Value}
    (h : readValue fuel ('{' :: cs) = some (v, rest)) : ∃ members, v = .object members := by
  cases fuel with
  | zero => cases h
  | succ fuel =>
    rw [readValue, skipBlank_cons rfl] at h
    dsimp only at h
    rw [if_neg (by decide), if_neg (by decide), if_pos rfl] at h
    split at h
    next =>
      cases h
      exact ⟨_, rfl⟩
    next => exact exists_object_of_readMembers h

/-- A strict prefix of the characters of an object holds no value. -/
theorem parseChars?_eq_none_of_append {members : List (Option String × Value)}
    {cs more : List Char} (h : cs ++ more = (Value.object members).render) (hmore : more ≠ []) :
    parseChars? cs = none := by
  unfold parseChars?
  split
  next v rest hread =>
    have hobject : ∃ members, v = .object members := by
      cases cs with
      | nil => cases hread
      | cons c cs =>
        obtain rfl : c = '{' := (List.cons.inj h).1
        exact exists_object_of_readValue hread
    have hfuel : 2 * cs.length + 2 ≤ 2 * (cs ++ more).length + 2 := by
      rw [List.length_append]
      omega
    have henough : 2 * (Value.object members).render.length ≤ 2 * (cs ++ more).length + 2 := by
      rw [h]
      omega
    have hcut := readValue_append more hfuel hread (.inr hobject)
    have hwhole := readValue_render (.object members) henough follows_nil
    rw [List.append_nil, ← h, hcut] at hwhole
    -- the object would have to end before the text does
    have hnil : rest ++ more = [] := congrArg Prod.snd (Option.some.inj hwhole)
    exact absurd (List.append_eq_nil_iff.mp hnil).2 hmore
  next => rfl

/-- A strict prefix of the text of an object holds no value. -/
theorem parse?_eq_none_of_append {members : List (Option String × Value)} {s more : String}
    (h : s ++ more = (Value.object members).toText) (hmore : more ≠ "") : parse? s = none := by
  have hchars : s.toList ++ more.toList = (Value.object members).render := by
    rw [← String.toList_append, h]
    unfold Value.toText
    rw [String.toList_ofList]
  exact parseChars?_eq_none_of_append hchars (mt String.toList_eq_nil_iff.mp hmore)

end MutationTester.Json
