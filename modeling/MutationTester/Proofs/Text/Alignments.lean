import MutationTester.Proofs.Text.Edits
import MutationTester.Proofs.Text.Lines
import MutationTester.Text.Diff

/-!
# What an alignment leads to

Wherever two lists of lines are cut, what comes of it leads from the one to the other
(`aligns_align`), and costs no more than to delete and insert all lines between those that both begin
with and those that both end with. So where one line is replaced by another, the alignment is a shortest
one (`isShortest_settle_align`). Any shortest edits show that replacement as two lines
(`shown_of_isShortest`), and so does the difference of the texts (`diff_replaced`).
-/

set_option autoImplicit false

namespace MutationTester.Text

open Edit

/-! ## What two lists begin and end with -/

theorem commonStart_prefix (old new : List String) :
    commonStart old new <+: old ∧ commonStart old new <+: new := by
  induction old generalizing new with
  | nil => exact ⟨List.nil_prefix, List.nil_prefix⟩
  | cons line old ih =>
    cases new with
    | nil => exact ⟨List.nil_prefix, List.nil_prefix⟩
    | cons other new =>
      unfold commonStart
      split
      next heq =>
        subst heq
        exact ⟨List.cons_prefix_cons.mpr ⟨rfl, (ih new).1⟩,
          List.cons_prefix_cons.mpr ⟨rfl, (ih new).2⟩⟩
      next => exact ⟨List.nil_prefix, List.nil_prefix⟩

theorem commonEnd_suffix (old new : List String) :
    commonEnd old new <:+ old ∧ commonEnd old new <:+ new := by
  obtain ⟨hold, hnew⟩ := commonStart_prefix old.reverse new.reverse
  unfold commonEnd
  refine ⟨?_, ?_⟩
  · rwa [← List.reverse_prefix, List.reverse_reverse]
  · rwa [← List.reverse_prefix, List.reverse_reverse]

theorem commonStart_replaced {a b : String} (hne : a ≠ b) (front back back' : List String) :
    commonStart (front ++ a :: back) (front ++ b :: back') = front := by
  induction front with
  | nil => exact if_neg hne
  | cons line front ih =>
    rw [List.cons_append, List.cons_append, commonStart, if_pos rfl, ih]

theorem commonEnd_replaced {a b : String} (hne : a ≠ b) (back : List String) :
    commonEnd (a :: back) (b :: back) = back := by
  unfold commonEnd
  rw [List.reverse_cons, List.reverse_cons, commonStart_replaced hne, List.reverse_reverse]

/-! ## Alignments -/

/-- Edits that lead from one list of lines to another and cost no more than to delete and insert all of
them. -/
structure Aligns (edits : List Edit) (old new : List String) : Prop where
  source_eq : source edits = old
  target_eq : target edits = new
  cost_le : cost edits ≤ old.length + new.length

theorem aligns_replace (old new : List String) : Aligns (Edit.replace old new) old new := by
  have hdelete : source (old.map delete) = old ∧ target (old.map delete) = [] ∧
      cost (old.map delete) = old.length := by
    induction old with
    | nil => exact ⟨rfl, rfl, rfl⟩
    | cons line old ih =>
      obtain ⟨hsource, htarget, hcost⟩ := ih
      refine ⟨congrArg _ hsource, htarget, ?_⟩
      rw [List.map_cons, List.length_cons, ← hcost, ← List.singleton_append, cost_append]
      exact Nat.add_comm 1 _
  have hinsert : source (if new.isEmpty then [] else [Edit.insert new]) = [] ∧
      target (if new.isEmpty then [] else [Edit.insert new]) = new ∧
      cost (if new.isEmpty then [] else [Edit.insert new]) = new.length := by
    cases new with
    | nil => exact ⟨rfl, rfl, rfl⟩
    | cons line new => simp [before, after, cost, deletedLines, insertedLines]
  unfold Edit.replace
  constructor
  case source_eq => rw [source_append, hdelete.1, hinsert.1, List.append_nil]
  case target_eq => rw [target_append, hdelete.2.1, hinsert.2.1, List.nil_append]
  case cost_le =>
    refine Nat.le_of_eq ?_
    rw [cost_append, hdelete.2.2, hinsert.2.2]

namespace Aligns

variable {edits edits' : List Edit} {old old' new new' : List String}

theorem append (h : Aligns edits old new) (h' : Aligns edits' old' new') :
    Aligns (edits ++ edits') (old ++ old') (new ++ new') where
  source_eq := by rw [source_append, h.source_eq, h'.source_eq]
  target_eq := by rw [target_append, h.target_eq, h'.target_eq]
  cost_le := by
    have hcost := h.cost_le
    have hcost' := h'.cost_le
    rw [cost_append, List.length_append, List.length_append]
    omega

theorem map_keep (lines : List String) : Aligns (lines.map keep) lines lines :=
  ⟨source_map_keep lines, target_map_keep lines, by rw [cost_map_keep]; exact Nat.zero_le _⟩

end Aligns

/-- Lists that are cut anywhere are aligned by aligning their parts. -/
theorem aligns_cut {cuts : Nat} (hcuts : ∀ old new, Aligns (alignWithin cuts old new) old new)
    (old new : List String) :
    Aligns (if old.isEmpty || new.isEmpty then Edit.replace old new
      else match middle? old new with
        | some (x, y) =>
          alignWithin cuts (old.take x) (new.take y) ++ alignWithin cuts (old.drop x) (new.drop y)
        | none => Edit.replace old new) old new := by
  split
  next => exact aligns_replace old new
  next =>
    split
    next x y hmiddle =>
      have hparts := (hcuts (old.take x) (new.take y)).append (hcuts (old.drop x) (new.drop y))
      rwa [List.take_append_drop, List.take_append_drop] at hparts
    next => exact aligns_replace old new

/-- One more cut keeps the lines that both lists begin with and those that both end with, and aligns
what lies between. -/
theorem alignWithin_succ {cuts : Nat}
    (hcuts : ∀ old new, Aligns (alignWithin cuts old new) old new) (old new : List String) :
    let start := commonStart old new
    let finish := commonEnd (old.drop start.length) (new.drop start.length)
    ∃ edits old' new', Aligns edits old' new' ∧ old = start ++ (old' ++ finish) ∧
      new = start ++ (new' ++ finish) ∧
      alignWithin (cuts + 1) old new = start.map keep ++ edits ++ finish.map keep := by
  intro start finish
  obtain ⟨hstart, hstart'⟩ := commonStart_prefix old new
  obtain ⟨hfinish, hfinish'⟩ := commonEnd_suffix (old.drop start.length) (new.drop start.length)
  refine ⟨_, _, _, aligns_cut hcuts _ _, ?_, ?_, rfl⟩
  · rw [List.suffix_iff_eq_append.mp hfinish, List.prefix_iff_eq_append.mp hstart]
  · rw [List.suffix_iff_eq_append.mp hfinish', List.prefix_iff_eq_append.mp hstart']

/-- However often lists are cut, the edits lead from the one to the other. -/
theorem aligns_alignWithin (cuts : Nat) (old new : List String) :
    Aligns (alignWithin cuts old new) old new := by
  induction cuts generalizing old new with
  | zero => exact aligns_replace old new
  | succ cuts ih =>
    obtain ⟨edits, old', new', haligns, hold, hnew, hedits⟩ := alignWithin_succ ih old new
    have hall := ((Aligns.map_keep (commonStart old new)).append haligns).append (Aligns.map_keep
      (commonEnd (old.drop (commonStart old new).length) (new.drop (commonStart old new).length)))
    rwa [← hedits, List.append_assoc, ← hold, List.append_assoc, ← hnew] at hall

theorem aligns_align (old new : List String) : Aligns (align old new) old new :=
  aligns_alignWithin _ old new

section Replaced

variable {front back : List String} {a b : String}

/-- Where one line is replaced, an alignment that is settled is a shortest one. -/
theorem isShortest_settle_align (ha : a ∉ front ++ b :: back) (hb : b ∉ front ++ a :: back) :
    IsShortest (settle (align (front ++ a :: back) (front ++ b :: back)))
      (front ++ a :: back) (front ++ b :: back) := by
  have hne : a ≠ b := by
    rintro rfl
    simp at ha
  have haligns := aligns_align (front ++ a :: back) (front ++ b :: back)
  have halike := alike_settle (align (front ++ a :: back) (front ++ b :: back))
  refine (isShortest_iff_cost_le ha hb).mpr
    ⟨halike.source_eq.trans haligns.source_eq, halike.target_eq.trans haligns.target_eq, ?_⟩
  -- there are lines, so the first cut is made, and leaves the two lines alone
  obtain ⟨cuts, hcuts⟩ : ∃ cuts,
      (front ++ a :: back).length + (front ++ b :: back).length = cuts + 1 :=
    ⟨_, by rw [List.length_append, List.length_cons, ← Nat.add_assoc, Nat.add_right_comm]⟩
  obtain ⟨edits, old', new', hbetween, hold, hnew, hedits⟩ :=
    alignWithin_succ (aligns_alignWithin cuts) (front ++ a :: back) (front ++ b :: back)
  rw [commonStart_replaced hne, List.drop_left, List.drop_left, commonEnd_replaced hne]
    at hold hnew hedits
  have hold' : [a] = old' := List.append_cancel_right (List.append_cancel_left hold)
  have hnew' : [b] = new' := List.append_cancel_right (List.append_cancel_left hnew)
  have hcost := hbetween.cost_le
  rw [← hold', ← hnew'] at hcost
  rw [halike.cost_eq, align, hcuts, hedits, cost_append, cost_append, cost_map_keep, cost_map_keep,
    Nat.zero_add, Nat.add_zero]
  exact hcost

/-! ## Differences -/

/-- The text that shows the changes of edits. -/
def Edit.shown (edits : List Edit) : String := String.join ((changes edits).map Change.text)

theorem endLine_append_feed (line : String) : endLine (line ++ "\n") = line ++ "\n" := by
  have hlast : (line ++ "\n").toList.getLast? = some '\n' := by simp
  unfold endLine
  rw [hlast]
  rfl

theorem splitKeepingEnds_replaced (hlines : ∀ line ∈ front ++ a :: back, Unbroken line) :
    splitKeepingEnds (ofLines (front ++ a :: back)) =
      front.map (· ++ "\n") ++ (a ++ "\n") :: back.map (· ++ "\n") := by
  rw [splitKeepingEnds_ofLines hlines, List.map_append, List.map_cons]

/-- A line feed behind each makes no two lines equal. -/
theorem append_feed_not_mem (ha : a ∉ front ++ b :: back) :
    a ++ "\n" ∉ front.map (· ++ "\n") ++ (b ++ "\n") :: back.map (· ++ "\n") := by
  intro hmem
  have hmap : a ++ "\n" ∈ (front ++ b :: back).map (· ++ "\n") := by
    rwa [List.map_append, List.map_cons]
  exact ha ((List.mem_map_of_injective fun _ _ => (String.append_left_inj "\n").mp).mp hmap)

/-- Where one line of a text is replaced, any shortest edits show it as two lines: the one that is
deleted and the one that is inserted. -/
theorem shown_of_isShortest (hlines : ∀ line ∈ front ++ a :: back, Unbroken line)
    (hlines' : ∀ line ∈ front ++ b :: back, Unbroken line) (ha : a ∉ front ++ b :: back)
    (hb : b ∉ front ++ a :: back) {edits : List Edit}
    (h : IsShortest edits (splitKeepingEnds (ofLines (front ++ a :: back)))
      (splitKeepingEnds (ofLines (front ++ b :: back)))) :
    Edit.shown edits = ofLines ["- " ++ a, "+ " ++ b] := by
  rw [splitKeepingEnds_replaced hlines, splitKeepingEnds_replaced hlines'] at h
  have hchanges := h.changes_eq (append_feed_not_mem ha) (append_feed_not_mem hb)
  unfold Edit.shown
  rw [hchanges]
  simp [Change.text, endLine_append_feed, String.append_assoc]

/-- Where one line of a text is replaced, the difference of the texts is made of shortest edits, and shows
that replacement. -/
theorem diff_replaced (hlines : ∀ line ∈ front ++ a :: back, Unbroken line)
    (hlines' : ∀ line ∈ front ++ b :: back, Unbroken line) (ha : a ∉ front ++ b :: back)
    (hb : b ∉ front ++ a :: back) :
    let old := splitKeepingEnds (ofLines (front ++ a :: back))
    let new := splitKeepingEnds (ofLines (front ++ b :: back))
    IsShortest (settle (align old new)) old new ∧
      diff (ofLines (front ++ a :: back)) (ofLines (front ++ b :: back)) =
        ofLines ["- " ++ a, "+ " ++ b] := by
  intro old new
  have hshortest : IsShortest (settle (align old new)) old new := by
    dsimp only [old, new]
    rw [splitKeepingEnds_replaced hlines, splitKeepingEnds_replaced hlines']
    exact isShortest_settle_align (append_feed_not_mem ha) (append_feed_not_mem hb)
  exact ⟨hshortest, shown_of_isShortest hlines hlines' ha hb hshortest⟩

end Replaced

end MutationTester.Text
