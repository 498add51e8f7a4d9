import MutationTester.Text.Settling
import Mathlib.Data.List.Basic

/-!
# What edits amount to

Edits use up one list of lines and make another, and cost as much as they delete and insert. To settle
them changes nothing of this, as every move of an insertion past its neighbours keeps all three
(`alike_settle`).

The lines that are only in one of the two lists have to be deleted or inserted. So if two lists differ
in one line, and neither of the two different lines is in both lists, all shortest edits make the same
changes: the one line is deleted, and the other is inserted (`Edit.IsShortest.changes_eq`).
-/

set_option autoImplicit false

namespace MutationTester.Text

namespace Edit

/-! ## Lines used up, made and changed -/

/-- The lines of the old text that an edit uses up. -/
def before : Edit → List String
  | keep line => [line]
  | delete line => [line]
  | insert _ => []

/-- The lines of the new text that an edit makes. -/
def after : Edit → List String
  | keep line => [line]
  | delete _ => []
  | insert lines => lines

/-- The lines that an edit deletes. -/
def deletedLines : Edit → List String
  | delete line => [line]
  | _ => []

/-- The lines that an edit inserts. -/
def insertedLines : Edit → List String
  | insert lines => lines
  | _ => []

/-- The text that edits begin with. -/
def source (edits : List Edit) : List String := edits.flatMap before

/-- The text that edits lead to. -/
def target (edits : List Edit) : List String := edits.flatMap after

/-- The lines that edits delete. -/
def deleted (edits : List Edit) : List String := edits.flatMap deletedLines

/-- The lines that edits insert. -/
def inserted (edits : List Edit) : List String := edits.flatMap insertedLines

/-- The number of lines that edits delete or insert. -/
def cost (edits : List Edit) : Nat := (deleted edits).length + (inserted edits).length

section Lists

variable (e : Edit) (edits more : List Edit)

@[simp] theorem source_nil : source [] = [] := rfl

@[simp] theorem target_nil : target [] = [] := rfl

@[simp] theorem deleted_nil : deleted [] = [] := rfl

@[simp] theorem inserted_nil : inserted [] = [] := rfl

@[simp] theorem source_cons : source (e :: edits) = e.before ++ source edits := rfl

@[simp] theorem target_cons : target (e :: edits) = e.after ++ target edits := rfl

@[simp] theorem deleted_cons : deleted (e :: edits) = e.deletedLines ++ deleted edits := rfl

@[simp] theorem inserted_cons : inserted (e :: edits) = e.insertedLines ++ inserted edits := rfl

@[simp] theorem source_append : source (edits ++ more) = source edits ++ source more :=
  List.flatMap_append

@[simp] theorem target_append : target (edits ++ more) = target edits ++ target more :=
  List.flatMap_append

@[simp] theorem deleted_append : deleted (edits ++ more) = deleted edits ++ deleted more :=
  List.flatMap_append

@[simp] theorem inserted_append : inserted (edits ++ more) = inserted edits ++ inserted more :=
  List.flatMap_append

theorem cost_append : cost (edits ++ more) = cost edits + cost more := by
  unfold cost
  simp only [deleted_append, inserted_append, List.length_append]
  omega

end Lists

/-! ## Edits that amount to the same -/

/-- Edits that lead from the same text to the same text at the same cost. -/
structure Alike (edits edits' : List Edit) : Prop where
  source_eq : source edits = source edits'
  target_eq : target edits = target edits'
  cost_eq : cost edits = cost edits'

namespace Alike

theorem refl (edits : List Edit) : Alike edits edits := ⟨rfl, rfl, rfl⟩

theorem symm {edits edits' : List Edit} (h : Alike edits edits') : Alike edits' edits :=
  ⟨h.source_eq.symm, h.target_eq.symm, h.cost_eq.symm⟩

theorem trans {edits edits' edits'' : List Edit} (h : Alike edits edits')
    (h' : Alike edits' edits'') : Alike edits edits'' where
  source_eq := h.source_eq.trans h'.source_eq
  target_eq := h.target_eq.trans h'.target_eq
  cost_eq := h.cost_eq.trans h'.cost_eq

theorem append {edits edits' more more' : List Edit} (h : Alike edits edits')
    (h' : Alike more more') : Alike (edits ++ more) (edits' ++ more') where
  source_eq := by rw [source_append, source_append, h.source_eq, h'.source_eq]
  target_eq := by rw [target_append, target_append, h.target_eq, h'.target_eq]
  cost_eq := by rw [cost_append, cost_append, h.cost_eq, h'.cost_eq]

/-- An insertion that ends with the line that is kept in front of it can begin with that line instead. -/
theorem past_keep (line : String) (lines : List String) :
    Alike [insert (line :: lines), keep line] [keep line, insert (lines ++ [line])] where
  source_eq := rfl
  target_eq := by simp [after]
  cost_eq := by simp [cost, deletedLines, insertedLines]

theorem past_delete (line : String) (lines : List String) :
    Alike [insert lines, delete line] [delete line, insert lines] := by
  constructor <;> simp [cost, before, after, deletedLines, insertedLines]

theorem joined (lines more : List String) :
    Alike [insert (lines ++ more)] [insert lines, insert more] := by
  constructor <;> simp [cost, before, after, deletedLines, insertedLines]

theorem within {edits edits' : List Edit} (h : Alike edits edits') (front back : List Edit) :
    Alike (front ++ (edits ++ back)) (front ++ (edits' ++ back)) :=
  (refl front).append (h.append (refl back))

end Alike

end Edit

/-! ## Settling -/

namespace Settling

open Edit

/-- An insertion rises past edits that amount to the same below it. -/
theorem alike_rise (lines : List String) (above below : List Edit) :
    Alike ((rise lines above below).1.edits ++ (rise lines above below).2)
      (above.reverse ++ insert lines :: below) := by
  -- each edit above that is passed becomes the first of those below, so these vary
  induction above generalizing lines below with
  | nil => exact .refl _
  | cons e above ih =>
    rw [List.reverse_cons, List.append_assoc]
    cases e with
    | keep line =>
      unfold rise
      split
      next hlast =>
        obtain ⟨front, rfl⟩ := List.getLast?_eq_some_iff.mp hlast
        rw [List.dropLast_concat]
        exact (ih _ _).trans ((Alike.past_keep line front).within above.reverse below)
      next =>
        simp only [edits, List.reverse_cons, List.append_assoc]
        exact .refl _
    | delete line =>
      exact (ih _ _).trans ((Alike.past_delete line lines).within above.reverse below)
    | insert more =>
      exact (ih _ _).trans ((Alike.joined more lines).within above.reverse below)

theorem alike_sink (s : Settling) (e : Edit) : Alike (s.sink e).edits (s.edits ++ [e]) := by
  obtain ⟨above, _ | lines⟩ := s
  case none =>
    simp only [sink, edits, List.reverse_cons]
    exact .refl _
  case some =>
    simp only [edits, List.reverse_cons, List.append_assoc]
    cases e with
    | keep line =>
      by_cases hfirst : lines.head? = some line
      · simp only [sink, if_pos hfirst, List.reverse_cons, List.append_assoc]
        obtain ⟨more, rfl⟩ := List.head?_eq_some_iff.mp hfirst
        exact (Alike.refl above.reverse).append (Alike.past_keep line more).symm
      · simp only [sink, if_neg hfirst, List.reverse_cons, List.append_assoc]
        exact .refl _
    | delete line =>
      simp only [sink, List.reverse_cons, List.append_assoc]
      exact (Alike.refl above.reverse).append (Alike.past_delete line lines).symm
    | insert more =>
      exact (Alike.refl above.reverse).append (Alike.joined lines more)

/-- If each step adds the edit that it goes on to, all of them together add all edits. -/
theorem alike_foldl {step : Settling → Edit → Settling}
    (hstep : ∀ s e, Alike (step s e).edits (s.edits ++ [e])) (s : Settling) (more : List Edit) :
    Alike (more.foldl step s).edits (s.edits ++ more) := by
  induction more generalizing s with
  | nil =>
    rw [List.append_nil]
    exact .refl _
  | cons e more ih =>
    have hfirst := (hstep s e).append (Alike.refl more)
    rw [List.append_assoc] at hfirst
    exact (ih (step s e)).trans hfirst

/-- Going on to an edit adds it, also if it is an insertion that rises first. -/
theorem alike_add (s : Settling) (e : Edit) : Alike (s.add e).edits (s.edits ++ [e]) := by
  cases hsinking : s.sinking with
  | some lines =>
    have hsinks : s.add e = s.sink e := by
      unfold add
      rw [hsinking]
    rw [hsinks]
    exact alike_sink s e
  | none =>
    cases e with
    | insert lines =>
      have hrises : s.add (insert lines) =
          (rise lines s.above []).2.foldl sink (rise lines s.above []).1 := by
        unfold add
        rw [hsinking]
      have hedits : s.edits = s.above.reverse := by
        unfold edits
        rw [hsinking]
      rw [hrises, hedits]
      exact (alike_foldl alike_sink _ _).trans (alike_rise lines s.above [])
    | _ =>
      unfold add
      rw [hsinking]
      exact alike_sink s _

end Settling

/-- Settled edits amount to what they amounted to before. -/
theorem alike_settle (edits : List Edit) : Edit.Alike (settle edits) edits :=
  Settling.alike_foldl Settling.alike_add {} edits

/-! ## Shortest edits -/

namespace Edit

/-- Edits that lead from one text to another at the least cost. -/
structure IsShortest (edits : List Edit) (old new : List String) : Prop where
  source_eq : source edits = old
  target_eq : target edits = new
  cost_le : ∀ other, source other = old → target other = new → cost edits ≤ cost other

variable {edits : List Edit} {front back : List String} {a b : String}

theorem mem_deleted {line : String} (hold : line ∈ source edits) (hnew : line ∉ target edits) :
    line ∈ deleted edits := by
  obtain ⟨e, he, hline⟩ := List.mem_flatMap.mp hold
  cases e with
  | keep kept => exact (hnew (List.mem_flatMap.mpr ⟨_, he, hline⟩)).elim
  | delete gone => exact List.mem_flatMap.mpr ⟨_, he, hline⟩
  | insert lines => cases hline

theorem mem_inserted {line : String} (hnew : line ∈ target edits) (hold : line ∉ source edits) :
    line ∈ inserted edits := by
  obtain ⟨e, he, hline⟩ := List.mem_flatMap.mp hnew
  cases e with
  | keep kept => exact (hold (List.mem_flatMap.mpr ⟨_, he, hline⟩)).elim
  | delete gone => cases hline
  | insert lines => exact List.mem_flatMap.mpr ⟨_, he, hline⟩

/-- Edits that only keep lines change nothing but what was to be inserted before. -/
theorem changesBefore_of_kept (hdeleted : deleted edits = []) (hinserted : inserted edits = [])
    (lines : List String) : changesBefore lines edits = lines.map .insert := by
  induction edits generalizing lines with
  | nil => rfl
  | cons e edits ih =>
    cases e with
    | keep line =>
      unfold changesBefore
      rw [ih hdeleted hinserted, List.map_nil, List.append_nil]
    | delete line => cases hdeleted
    | insert more =>
      obtain ⟨rfl, hrest⟩ := List.append_eq_nil_iff.mp hinserted
      unfold changesBefore
      rw [ih hdeleted hrest, List.append_nil]

/-- One line is inserted in front of lines that are kept. -/
theorem changes_of_inserted (hsource : source edits = back) (htarget : target edits = b :: back)
    (hdeleted : deleted edits = []) (hinserted : inserted edits = [b]) (hb : b ∉ back) :
    changes edits = [.insert b] := by
  induction edits with
  | nil => cases htarget
  | cons e edits ih =>
    cases e with
    | keep line =>
      obtain ⟨rfl, -⟩ := List.cons.inj htarget
      rw [← hsource] at hb
      exact absurd List.mem_cons_self hb
    | delete line => cases hdeleted
    | insert lines =>
      have hsplit : lines ++ inserted edits = [b] := hinserted
      rcases List.append_eq_singleton_iff.mp hsplit with ⟨rfl, hrest⟩ | ⟨rfl, hrest⟩
      · exact ih hsource htarget hdeleted hrest
      · have hnone : deleted edits = [] := hdeleted
        exact changesBefore_of_kept hnone hrest [b]

/-- One line is deleted in front of lines that are kept, and is named before another that is inserted
there. -/
theorem changesBefore_of_deleted (hsource : source edits = a :: back)
    (htarget : target edits = back) (hdeleted : deleted edits = [a])
    (hinserted : inserted edits = []) (ha : a ∉ back) :
    changesBefore [b] edits = [.delete a, .insert b] := by
  induction edits with
  | nil => cases hsource
  | cons e edits ih =>
    cases e with
    | keep line =>
      obtain ⟨rfl, -⟩ := List.cons.inj hsource
      rw [← htarget] at ha
      exact absurd List.mem_cons_self ha
    | delete line =>
      obtain ⟨rfl, hrest⟩ := List.cons.inj hdeleted
      exact congrArg _ (changesBefore_of_kept hrest hinserted [b])
    | insert lines =>
      obtain ⟨rfl, hrest⟩ := List.append_eq_nil_iff.mp hinserted
      exact ih hsource htarget hdeleted hrest

/-- If one line is deleted and another inserted at one place of a text, these are the changes, in this
order. -/
theorem changes_of_replaced (hsource : source edits = front ++ a :: back)
    (htarget : target edits = front ++ b :: back) (hdeleted : deleted edits = [a])
    (hinserted : inserted edits = [b]) (ha : a ∉ front ++ b :: back)
    (hb : b ∉ front ++ a :: back) : changes edits = [.delete a, .insert b] := by
  -- by the first edit: a line that is kept is the first in front, and else the place is reached
  induction edits generalizing front with
  | nil => cases hdeleted
  | cons e edits ih =>
    cases e with
    | keep line =>
      cases front with
      | nil =>
        obtain ⟨rfl, -⟩ := List.cons.inj hsource
        obtain ⟨rfl, -⟩ := List.cons.inj htarget
        exact absurd List.mem_cons_self ha
      | cons first front =>
        exact ih (List.cons.inj hsource).2 (List.cons.inj htarget).2 hdeleted hinserted
          (List.not_mem_of_not_mem_cons ha) (List.not_mem_of_not_mem_cons hb)
    | delete line =>
      obtain ⟨rfl, hrest⟩ := List.cons.inj hdeleted
      cases front with
      | nil =>
        exact congrArg _ (changes_of_inserted (List.cons.inj hsource).2 htarget hrest hinserted
          (List.not_mem_of_not_mem_cons hb))
      | cons first front =>
        obtain ⟨rfl, -⟩ := List.cons.inj hsource
        exact absurd List.mem_cons_self ha
    | insert lines =>
      have hsplit : lines ++ inserted edits = [b] := hinserted
      rcases List.append_eq_singleton_iff.mp hsplit with ⟨rfl, hrest⟩ | ⟨rfl, hrest⟩
      · exact ih hsource htarget hdeleted hrest ha hb
      · cases front with
        | nil =>
          exact changesBefore_of_deleted hsource (List.cons.inj htarget).2 hdeleted hrest
            (List.not_mem_of_not_mem_cons ha)
        | cons first front =>
          obtain ⟨rfl, -⟩ := List.cons.inj htarget
          exact absurd List.mem_cons_self hb

/-- Edits that lead to a text in which one line is replaced delete the one line and insert the other. -/
theorem deleted_inserted_of_cost (hsource : source edits = front ++ a :: back)
    (htarget : target edits = front ++ b :: back) (ha : a ∉ front ++ b :: back)
    (hb : b ∉ front ++ a :: back) :
    2 ≤ cost edits ∧ (cost edits ≤ 2 → deleted edits = [a] ∧ inserted edits = [b]) := by
  have hdeleted : a ∈ deleted edits := mem_deleted (by simp [hsource]) (htarget ▸ ha)
  have hinserted : b ∈ inserted edits := mem_inserted (by simp [htarget]) (hsource ▸ hb)
  have hlength := List.length_pos_of_mem hdeleted
  have hlength' := List.length_pos_of_mem hinserted
  unfold cost
  refine ⟨by omega, fun hcost => ⟨?_, ?_⟩⟩
  · obtain ⟨line, hline⟩ := List.length_eq_one_iff.mp (by omega : (deleted edits).length = 1)
    rw [hline, List.mem_singleton] at hdeleted
    rw [hline, hdeleted]
  · obtain ⟨line, hline⟩ := List.length_eq_one_iff.mp (by omega : (inserted edits).length = 1)
    rw [hline, List.mem_singleton] at hinserted
    rw [hline, hinserted]

theorem source_map_keep (lines : List String) : source (lines.map keep) = lines := by
  induction lines with
  | nil => rfl
  | cons line lines ih => exact congrArg _ ih

theorem target_map_keep (lines : List String) : target (lines.map keep) = lines := by
  induction lines with
  | nil => rfl
  | cons line lines ih => exact congrArg _ ih

theorem cost_map_keep (lines : List String) : cost (lines.map keep) = 0 := by
  induction lines with
  | nil => rfl
  | cons line lines ih => exact ih

/-- Where one line is replaced, edits are shortest if they cost two lines. -/
theorem isShortest_iff_cost_le (ha : a ∉ front ++ b :: back) (hb : b ∉ front ++ a :: back) :
    IsShortest edits (front ++ a :: back) (front ++ b :: back) ↔
      source edits = front ++ a :: back ∧ target edits = front ++ b :: back ∧ cost edits ≤ 2 := by
  constructor
  · rintro ⟨hsource, htarget, hle⟩
    have hother := hle (front.map keep ++ ([delete a, insert [b]] ++ back.map keep))
      (by simp [before, source_map_keep]) (by simp [after, target_map_keep])
    rw [cost_append, cost_append, cost_map_keep, cost_map_keep] at hother
    exact ⟨hsource, htarget, hother⟩
  · rintro ⟨hsource, htarget, hle⟩
    refine ⟨hsource, htarget, fun other hsource' htarget' => ?_⟩
    exact Nat.le_trans hle (deleted_inserted_of_cost hsource' htarget' ha hb).1

/-- All shortest edits of a text in which one line is replaced make the same changes. -/
theorem IsShortest.changes_eq (h : IsShortest edits (front ++ a :: back) (front ++ b :: back))
    (ha : a ∉ front ++ b :: back) (hb : b ∉ front ++ a :: back) :
    changes edits = [.delete a, .insert b] := by
  obtain ⟨hsource, htarget, hle⟩ := (isShortest_iff_cost_le ha hb).mp h
  obtain ⟨hdeleted, hinserted⟩ := (deleted_inserted_of_cost hsource htarget ha hb).2 hle
  exact changes_of_replaced hsource htarget hdeleted hinserted ha hb

end Edit

end MutationTester.Text
