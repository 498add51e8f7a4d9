import MutationTester.Text.Lines
import Mathlib.Data.List.Basic

/-!
# What texts are cut into

Lines that hold no character that ends a line are what the text is cut into that they make up with a
line feed behind each (`splitKeepingEnds_ofLines`).

Without their ends, the lines of a text come one after the other: each up to the next line feed, less a
carriage return in front of it (`linesWithoutEnds_line`), and at last what has no line feed behind it
(`linesWithoutEnds_last`).
-/

set_option autoImplicit false

namespace MutationTester.Text

/-! ## Lines with their ends -/

/-- A text that no character of ends a line. -/
structure Unbroken (s : String) : Prop where
  no_feed : '\n' ∉ s.toList
  no_return : '\r' ∉ s.toList

instance : DecidablePred Unbroken := fun s =>
  decidable_of_iff ('\n' ∉ s.toList ∧ '\r' ∉ s.toList)
    ⟨fun h => ⟨h.1, h.2⟩, fun h => ⟨h.no_feed, h.no_return⟩⟩

@[simp] theorem unbroken_append {s t : String} : Unbroken (s ++ t) ↔ Unbroken s ∧ Unbroken t := by
  constructor
  · rintro ⟨hfeed, hreturn⟩
    rw [String.toList_append, List.mem_append, not_or] at hfeed hreturn
    exact ⟨⟨hfeed.1, hreturn.1⟩, ⟨hfeed.2, hreturn.2⟩⟩
  · rintro ⟨hs, ht⟩
    constructor
    · rw [String.toList_append, List.mem_append]
      exact not_or.mpr ⟨hs.no_feed, ht.no_feed⟩
    · rw [String.toList_append, List.mem_append]
      exact not_or.mpr ⟨hs.no_return, ht.no_return⟩

theorem unbroken_intercalate {separator : String} (hseparator : Unbroken separator)
    {texts : List String} (h : ∀ s ∈ texts, Unbroken s) : Unbroken (separator.intercalate texts) := by
  induction texts with
  | nil =>
    rw [String.intercalate_nil]
    decide
  | cons s texts ih =>
    obtain ⟨hs, htexts⟩ := List.forall_mem_cons.mp h
    cases texts with
    | nil => exact hs
    | cons t texts =>
      rw [String.intercalate_cons_cons, unbroken_append, unbroken_append]
      exact ⟨⟨hs, hseparator⟩, ih htexts⟩

/-- A character that ends no line belongs to the line at hand. -/
theorem linesWithEnds_cons (lines : List (List Char)) (line cs : List Char) {c : Char}
    (hfeed : c ≠ '\n') (hreturn : c ≠ '\r') :
    linesWithEnds lines line (c :: cs) = linesWithEnds lines (c :: line) cs := by
  rw [linesWithEnds]
  · exact hfeed
  · exact fun _ h _ => hreturn h
  · exact hreturn

theorem linesWithEnds_line (lines : List (List Char)) (line : List Char) {cs : List Char}
    (hfeed : '\n' ∉ cs) (hreturn : '\r' ∉ cs) (rest : List Char) :
    linesWithEnds lines line (cs ++ '\n' :: rest) =
      linesWithEnds ((line.reverse ++ cs ++ ['\n']) :: lines) [] rest := by
  induction cs generalizing line with
  | nil => simp [linesWithEnds]
  | cons c cs ih =>
    have hc : c ≠ '\n' := fun h => hfeed (h ▸ List.mem_cons_self)
    have hc' : c ≠ '\r' := fun h => hreturn (h ▸ List.mem_cons_self)
    rw [List.cons_append, linesWithEnds_cons _ _ _ hc hc', ih (c :: line)
      (List.not_mem_of_not_mem_cons hfeed) (List.not_mem_of_not_mem_cons hreturn)]
    simp

/-- The text that lines make up if each is ended by a line feed. -/
def ofLines (lines : List String) : String := String.join (lines.map (· ++ "\n"))

@[simp] theorem ofLines_nil : ofLines [] = "" := rfl

@[simp] theorem ofLines_cons (line : String) (lines : List String) :
    ofLines (line :: lines) = line ++ "\n" ++ ofLines lines :=
  String.join_cons

theorem linesWithEnds_lines (done : List (List Char)) {lines : List String}
    (h : ∀ line ∈ lines, Unbroken line) :
    linesWithEnds done [] (ofLines lines).toList =
      done.reverse ++ lines.map fun line => line.toList ++ ['\n'] := by
  induction lines generalizing done with
  | nil => simp [linesWithEnds]
  | cons line lines ih =>
    obtain ⟨hline, hlines⟩ := List.forall_mem_cons.mp h
    have hchars : (ofLines (line :: lines)).toList =
        line.toList ++ '\n' :: (ofLines lines).toList := by
      simp
    rw [hchars, linesWithEnds_line done [] hline.no_feed hline.no_return, ih _ hlines]
    simp

/-- Lines without ends of their own are what their text is cut into, each with a line feed. -/
theorem splitKeepingEnds_ofLines {lines : List String} (h : ∀ line ∈ lines, Unbroken line) :
    splitKeepingEnds (ofLines lines) = lines.map (· ++ "\n") := by
  unfold splitKeepingEnds
  rw [linesWithEnds_lines [] h, List.reverse_nil, List.nil_append, List.map_map]
  refine List.map_congr_left fun line _ => ?_
  simp [String.ofList_append]

/-! ## Lines without their ends -/

/-- The lines that are found already stand in front of the others. -/
theorem linesWithoutEnds_eq_append (lines : List (List Char)) (line cs : List Char) :
    linesWithoutEnds lines line cs = lines.reverse ++ linesWithoutEnds [] line cs := by
  induction cs generalizing lines line with
  | nil =>
    unfold linesWithoutEnds
    split <;> simp
  | cons c cs ih =>
    unfold linesWithoutEnds
    split
    next =>
      rw [ih (_ :: lines), ih [_]]
      simp
    next => exact ih lines (c :: line)

theorem linesWithoutEnds_append (lines : List (List Char)) (line : List Char) {cs : List Char}
    (hfeed : '\n' ∉ cs) (rest : List Char) :
    linesWithoutEnds lines line (cs ++ rest) = linesWithoutEnds lines (cs.reverse ++ line) rest := by
  induction cs generalizing line with
  | nil => rfl
  | cons c cs ih =>
    have hc : c ≠ '\n' := fun h => hfeed (h ▸ List.mem_cons_self)
    rw [List.cons_append, linesWithoutEnds, if_neg hc, ih _ (List.not_mem_of_not_mem_cons hfeed)]
    simp

/-- A line ends at the first line feed, or at the carriage return in front of it. -/
theorem linesWithoutEnds_line {cs : List Char} (hfeed : '\n' ∉ cs) (rest : List Char) :
    linesWithoutEnds [] [] (cs ++ '\n' :: rest) =
      (dropReturn cs.reverse).reverse :: linesWithoutEnds [] [] rest := by
  rw [linesWithoutEnds_append [] [] hfeed, linesWithoutEnds, if_pos rfl, List.append_nil,
    linesWithoutEnds_eq_append]
  rfl

/-- What has no line feed behind it is the last line, unless it is nothing. -/
theorem linesWithoutEnds_last {cs : List Char} (hfeed : '\n' ∉ cs) :
    linesWithoutEnds [] [] cs = if cs.isEmpty then [] else [cs] := by
  have hread := linesWithoutEnds_append [] [] hfeed []
  rw [List.append_nil, List.append_nil] at hread
  rw [hread, linesWithoutEnds, List.isEmpty_reverse]
  split <;> simp

end MutationTester.Text
