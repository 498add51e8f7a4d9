import MutationTester.Proofs.Coverage.Encoding
import MutationTester.Proofs.Json.Reading

/-!
# Coverage records that are passed on

A record is passed on as two lists, and whatever lists arrive are merged into a record: the least
depth of a function counts, and neither order nor repetition does. Merging is replaying, so the
lists of two records put one after the other make up the record of the first into which the second
is replayed (`Coverage.ofLists_append`). A record itself is passed on as lists in strictly
increasing order, and it arrives as it was (`Coverage.survives_transport_and_merges`).
-/

set_option autoImplicit false

namespace MutationTester

namespace Coverage

/-- The two lists as which a record is passed on, in any order and with any repetitions. -/
structure Lists where
  entries : List (FuncId × Nat)
  sites : List Site

/-- The lists of a record. -/
def lists (c : Coverage) : Lists := ⟨c.entries, c.sites⟩

namespace Lists

/-- The text as which lists are passed on. -/
def toText (l : Lists) : String :=
  (Json.Value.record [("functions", .list entryToJson l.entries),
    ("executed", .list Site.toJson l.sites)]).toText

/-- The record that lists make up. -/
def merged (l : Lists) : Coverage := ofLists l.entries l.sites

/-- Records into a record what the lists say, in their order. -/
def replay (l : Lists) (c : Coverage) : Coverage :=
  l.sites.foldl hit (l.entries.foldl (fun c entry => c.enter entry.1 entry.2) c)

/-- The lists of one record and then those of another. -/
def append (l l' : Lists) : Lists := ⟨l.entries ++ l'.entries, l.sites ++ l'.sites⟩

/-- Two records of which each lists what the other lists, in whatever order and however often. -/
structure SameMembers (l l' : Lists) : Prop where
  entries_iff : ∀ entry, entry ∈ l.entries ↔ entry ∈ l'.entries
  sites_iff : ∀ s, s ∈ l.sites ↔ s ∈ l'.sites

/-- The positions and depths in the lists are words. -/
structure FitsWords (l : Lists) : Prop where
  entries : ∀ entry ∈ l.entries, entry.1.FitsWords ∧ entry.2 < UInt64.size
  sites : ∀ s ∈ l.sites, s.FitsWords

end Lists

/-- The record that a text holds. -/
def ofText? (text : String) : Option Coverage := Json.parse? text >>= ofJson?

/-! ## Passing on -/

variable {l l' : Lists}

/-- A record is written as its lists. -/
theorem toText_lists (c : Coverage) : c.lists.toText = c.toJson.toText := rfl

/-- Lists are read as the record that they make up. -/
theorem ofText?_toText (h : l.FitsWords) : ofText? l.toText = some l.merged := by
  unfold ofText? Lists.toText
  rw [Json.parse?_toText]
  exact ofJson?_record h.entries h.sites

/-- The lists of a record that is written in words are. -/
theorem FitsWords.lists {c : Coverage} (h : c.FitsWords) : c.lists.FitsWords :=
  ⟨h.entries, h.sites⟩

theorem merged_lists (c : Coverage) : c.lists.merged = c := c.ofLists_entries_sites

/-- The functions of a record are listed in strictly increasing order. -/
theorem pairwise_entries (c : Coverage) :
    c.entries.Pairwise fun a b => compare a.1 b.1 = .lt :=
  Std.ExtTreeMap.ordered_keys_toList

/-- The sites of a record are listed in strictly increasing order. -/
theorem pairwise_sites (c : Coverage) : c.sites.Pairwise fun a b => compare a b = .lt :=
  Std.ExtTreeSet.ordered_toList

namespace Lists

/-- Lists with the members of lists in words are in words. -/
theorem FitsWords.of_sameMembers (h : l.FitsWords) (hsame : l.SameMembers l') : l'.FitsWords where
  entries entry hentry := h.entries entry ((hsame.entries_iff entry).mpr hentry)
  sites s hs := h.sites s ((hsame.sites_iff s).mpr hs)

/-- The record that lists in words make up is written in words. -/
theorem FitsWords.merged (h : l.FitsWords) : l.merged.FitsWords :=
  fitsWords_ofLists h.entries h.sites

theorem FitsWords.append (h : l.FitsWords) (h' : l'.FitsWords) : (l.append l').FitsWords where
  entries := List.forall_mem_append.mpr ⟨h.entries, h'.entries⟩
  sites := List.forall_mem_append.mpr ⟨h.sites, h'.sites⟩

end Lists

/-! ## Merging -/

/-- A function has a depth in the merged record if this is the least of those listed for it. -/
theorem distance?_merged_iff (l : Lists) (f : FuncId) (depth : Nat) :
    l.merged.distance? f = some depth ↔
      (f, depth) ∈ l.entries ∧ ∀ other, (f, other) ∈ l.entries → depth ≤ other := by
  have hlisted : ∀ d, d ∈ (l.entries.filter (·.1 = f)).map Prod.snd ↔ (f, d) ∈ l.entries := by
    intro d
    simp [List.mem_map, List.mem_filter]
  unfold Lists.merged
  rw [distance?_ofLists, List.min?_eq_some_iff]
  simp only [hlisted]

/-- The sites executed in the merged record are the listed ones. -/
theorem isExecuted_merged_iff (l : Lists) (s : Site) :
    l.merged.isExecuted s = true ↔ s ∈ l.sites := by
  unfold Lists.merged
  rw [isExecuted_ofLists, decide_eq_true_eq]

/-- Lists with the same members make up the same record. -/
theorem merged_eq_of_sameMembers (h : l.SameMembers l') : l.merged = l'.merged := by
  apply eq_of_same
  · intro f
    apply Option.ext
    intro depth
    simp only [distance?_merged_iff, h.entries_iff]
  · intro s
    rw [Bool.eq_iff_iff, isExecuted_merged_iff, isExecuted_merged_iff, h.sites_iff]

/-- Merging lists is replaying them from nothing. -/
theorem merged_eq_replay (l : Lists) : l.merged = l.replay empty := rfl

/-- To replay two pairs of lists put one after the other is to replay them one after the other,
because what is executed and what is entered do not interfere. -/
theorem replay_append (l l' : Lists) (c : Coverage) :
    (l.append l').replay c = l'.replay (l.replay c) := by
  unfold Lists.append Lists.replay
  apply eq_of_same
  · intro f
    simp only [List.foldl_append, distance?_foldl_hit, distance?_foldl_enter]
  · intro s
    simp only [List.foldl_append, isExecuted_foldl_hit, isExecuted_foldl_enter]

/-- A record arrives as it was, from lists in strictly increasing order. Any other lists are read as
the record that has the least depth listed for each function and exactly the listed sites. So lists
with the same members are read as the same record, whatever their order and repetitions, and the
lists of two records put one after the other as the record of the first into which the second is
replayed. -/
theorem survives_transport_and_merges :
    (∀ c : Coverage, c.FitsWords →
      ofText? c.toJson.toText = some c ∧ c.toJson.toText = c.lists.toText ∧
      (c.lists.entries.Pairwise fun a b => compare a.1 b.1 = .lt) ∧
      c.lists.sites.Pairwise fun a b => compare a b = .lt) ∧
    ∀ l : Lists, l.FitsWords →
      (∃ c, ofText? l.toText = some c ∧
        (∀ f depth, c.distance? f = some depth ↔
          (f, depth) ∈ l.entries ∧ ∀ other, (f, other) ∈ l.entries → depth ≤ other) ∧
        ∀ s, c.isExecuted s = true ↔ s ∈ l.sites) ∧
      (∀ l', l.SameMembers l' → ofText? l'.toText = ofText? l.toText) ∧
      ∀ l', l'.FitsWords → ofText? (l.append l').toText = (ofText? l.toText).map l'.replay := by
  refine ⟨?_, ?_⟩
  · intro c hc
    refine ⟨?_, c.toText_lists.symm, c.pairwise_entries, c.pairwise_sites⟩
    have hread := ofText?_toText hc.lists
    rwa [c.merged_lists] at hread
  · intro l hl
    refine ⟨⟨l.merged, ofText?_toText hl, distance?_merged_iff l, isExecuted_merged_iff l⟩, ?_, ?_⟩
    · intro l' hsame
      rw [ofText?_toText hl, ofText?_toText (hl.of_sameMembers hsame),
        merged_eq_of_sameMembers hsame]
    · intro l' hl'
      rw [ofText?_toText hl, ofText?_toText (hl.append hl'), Option.map_some, merged_eq_replay,
        replay_append, ← merged_eq_replay]

/-- Three entries for two functions, and one site twice. -/
def shuffledLists : Lists where
  entries := [(⟨1, 0⟩, 3), (⟨0, 2⟩, 1), (⟨1, 0⟩, 2)]
  sites := [⟨1, 0, 4⟩, ⟨0, 2, 0⟩, ⟨1, 0, 4⟩]

/-- The same entries and sites in order, each once. -/
def sortedLists : Lists where
  entries := [(⟨0, 2⟩, 1), (⟨1, 0⟩, 2), (⟨1, 0⟩, 3)]
  sites := [⟨0, 2, 0⟩, ⟨1, 0, 4⟩]

/-- The lists are read as the record that has the lesser of two depths, the record arrives as it
was, and the other lists change nothing, alone or behind the first. -/
theorem shuffled_lists_are_merged :
    shuffledLists.FitsWords ∧ sortedLists.FitsWords ∧ shuffledLists.SameMembers sortedLists ∧
      ofText? shuffledLists.merged.toJson.toText = some shuffledLists.merged ∧
      (∃ c, ofText? shuffledLists.toText = some c ∧ c.distance? ⟨1, 0⟩ = some 2) ∧
      ofText? sortedLists.toText = ofText? shuffledLists.toText ∧
      ofText? (shuffledLists.append sortedLists).toText =
        (ofText? shuffledLists.toText).map sortedLists.replay := by
  have hsame : shuffledLists.SameMembers sortedLists := by
    constructor
    · simp only [shuffledLists, sortedLists, List.mem_cons, List.not_mem_nil]
      grind
    · simp only [shuffledLists, sortedLists, List.mem_cons, List.not_mem_nil]
      grind
  have hfits : shuffledLists.FitsWords := by
    constructor
    · have h₁ : (⟨1, 0⟩ : FuncId).FitsWords := ⟨by decide, by decide⟩
      have h₂ : (⟨0, 2⟩ : FuncId).FitsWords := ⟨by decide, by decide⟩
      simp [shuffledLists, h₁, h₂, UInt64.size]
    · have h₁ : (⟨1, 0, 4⟩ : Site).FitsWords := ⟨by decide, by decide, by decide⟩
      have h₂ : (⟨0, 2, 0⟩ : Site).FitsWords := ⟨by decide, by decide, by decide⟩
      simp [shuffledLists, h₁, h₂]
  have hfits' := hfits.of_sameMembers hsame
  obtain ⟨⟨c, hread, hdepths, -⟩, hanyOrder, hbehind⟩ :=
    survives_transport_and_merges.2 shuffledLists hfits
  have hleast : c.distance? ⟨1, 0⟩ = some 2 :=
    (hdepths ⟨1, 0⟩ 2).mpr ⟨by decide, by simp [shuffledLists]⟩
  exact ⟨hfits, hfits', hsame, (survives_transport_and_merges.1 _ hfits.merged).1,
    ⟨c, hread, hleast⟩, hanyOrder sortedLists hsame, hbehind sortedLists hfits'⟩

end Coverage

end MutationTester
