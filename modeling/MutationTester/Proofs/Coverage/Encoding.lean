import MutationTester.Coverage.Format
import MutationTester.Proofs.Json.Decoding
import MutationTester.Proofs.Machine.Recording

/-!
# Coverage records as lists

A record that is made of lists has for each function the least of its listed depths
(`Coverage.distance?_ofLists`) and as executed the listed sites (`Coverage.isExecuted_ofLists`), so
neither order nor repetition matters, and a record is made again of its own lists. So it survives
its form in JSON, if its counts and positions are words (`Coverage.ofJson?_toJson`).
-/

set_option autoImplicit false

namespace MutationTester

namespace Coverage

/-- Two records that say the same are the same. -/
theorem eq_of_same {c c' : Coverage} (hdepths : ∀ f, c.distance? f = c'.distance? f)
    (hexecuted : ∀ s, c.isExecuted s = c'.isExecuted s) : c = c' := by
  have h₁ : c.depths = c'.depths := Std.ExtTreeMap.ext_getElem? hdepths
  have h₂ : c.executed = c'.executed := by
    apply Std.ExtTreeSet.ext_mem
    intro s
    rw [← Std.ExtTreeSet.contains_iff_mem, ← Std.ExtTreeSet.contains_iff_mem]
    exact Bool.eq_iff_iff.mp (hexecuted s)
  cases c
  cases c'
  rw [mk.injEq]
  exact ⟨h₁, h₂⟩

section Lists

/-- Entries are merged into what a record says of a function. -/
theorem distance?_foldl_enter (entries : List (FuncId × Nat)) (c : Coverage) (f : FuncId) :
    (entries.foldl (fun c entry => c.enter entry.1 entry.2) c).distance? f =
      ((c.distance? f).toList ++ (entries.filter (·.1 = f)).map Prod.snd).min? := by
  induction entries generalizing c with
  | nil => cases hc : c.distance? f <;> simp [hc]
  | cons entry entries ih =>
    obtain ⟨g, depth⟩ := entry
    rw [List.foldl_cons, ih, distance?_enter]
    by_cases hf : f = g
    · subst hf
      have hlisted : (((f, depth) :: entries).filter (·.1 = f)).map Prod.snd =
          depth :: (entries.filter (·.1 = f)).map Prod.snd := by simp
      rw [if_pos rfl, hlisted]
      -- a depth that was known is compared with the new one first, and their least with the rest
      cases c.distance? f with
      | none => rfl
      | some least => rfl
    · simp [hf, Ne.symm hf]

theorem isExecuted_foldl_enter (entries : List (FuncId × Nat)) (c : Coverage) (s : Site) :
    (entries.foldl (fun c entry => c.enter entry.1 entry.2) c).isExecuted s = c.isExecuted s := by
  induction entries generalizing c with
  | nil => rfl
  | cons entry entries ih => rw [List.foldl_cons, ih, isExecuted_enter]

theorem distance?_foldl_hit (sites : List Site) (c : Coverage) (f : FuncId) :
    (sites.foldl hit c).distance? f = c.distance? f := by
  induction sites generalizing c with
  | nil => rfl
  | cons s sites ih => rw [List.foldl_cons, ih, distance?_hit]

theorem isExecuted_foldl_hit (sites : List Site) (c : Coverage) (s : Site) :
    (sites.foldl hit c).isExecuted s = (decide (s ∈ sites) || c.isExecuted s) := by
  induction sites generalizing c with
  | nil => simp
  | cons t sites ih =>
    rw [List.foldl_cons, ih, isExecuted_hit]
    by_cases hs : s = t <;> simp [hs]

variable (entries : List (FuncId × Nat)) (sites : List Site)

/-- Of the depths that are listed for a function the least counts. -/
theorem distance?_ofLists (f : FuncId) :
    (ofLists entries sites).distance? f = ((entries.filter (·.1 = f)).map Prod.snd).min? := by
  have hempty : empty.distance? f = none := Std.ExtTreeMap.getElem?_empty
  unfold ofLists
  rw [distance?_foldl_hit, distance?_foldl_enter, hempty]
  rfl

/-- The sites that are listed are the ones executed. -/
theorem isExecuted_ofLists (s : Site) :
    (ofLists entries sites).isExecuted s = decide (s ∈ sites) := by
  unfold ofLists
  rw [isExecuted_foldl_hit, isExecuted_foldl_enter, isExecuted_empty, Bool.or_false]

end Lists

/-- A function is listed with its least depth, if it was entered. -/
theorem mem_entries_iff (c : Coverage) (f : FuncId) (depth : Nat) :
    (f, depth) ∈ c.entries ↔ c.distance? f = some depth :=
  Std.ExtTreeMap.mem_toList_iff_getElem?_eq_some

/-- The listed sites are the ones executed. -/
theorem mem_sites_iff (c : Coverage) (s : Site) : s ∈ c.sites ↔ c.isExecuted s = true :=
  Std.ExtTreeSet.mem_toList.trans Std.ExtTreeSet.contains_iff_mem.symm

/-- A record is made again of its lists. -/
theorem ofLists_entries_sites (c : Coverage) : ofLists c.entries c.sites = c := by
  apply eq_of_same
  · intro f
    have hlisted : ∀ depth, depth ∈ (c.entries.filter (·.1 = f)).map Prod.snd ↔
        c.distance? f = some depth := by
      intro depth
      rw [← mem_entries_iff]
      simp [List.mem_map, List.mem_filter]
    rw [distance?_ofLists]
    cases hdepth : c.distance? f with
    | none =>
      rw [List.min?_eq_none_iff, List.eq_nil_iff_forall_not_mem]
      intro depth hmem
      rw [hlisted, hdepth] at hmem
      cases hmem
    | some depth =>
      rw [List.min?_eq_some_iff]
      refine ⟨(hlisted depth).mpr hdepth, ?_⟩
      intro other hother
      rw [hlisted, hdepth] at hother
      exact Nat.le_of_eq (Option.some.inj hother)
  · intro s
    rw [isExecuted_ofLists, Bool.eq_iff_iff, decide_eq_true_eq, mem_sites_iff]

end Coverage

/-! ## JSON -/

section Encoding

open Json (Value Fields)

/-- The position of a function is written in words. -/
structure FuncId.FitsWords (id : FuncId) : Prop where
  module_lt : id.module < UInt64.size
  function_lt : id.function < UInt64.size

/-- A site is written in words. -/
structure Site.FitsWords (s : Site) : Prop where
  module_lt : s.module < UInt64.size
  function_lt : s.function < UInt64.size
  index_lt : s.index < UInt64.size

/-- The positions and depths of a record are words. -/
structure Coverage.FitsWords (c : Coverage) : Prop where
  entries : ∀ entry ∈ c.entries, entry.1.FitsWords ∧ entry.2 < UInt64.size
  sites : ∀ s ∈ c.sites, s.FitsWords

/-- A record that is made of lists of words is written in words. -/
theorem Coverage.fitsWords_ofLists {entries : List (FuncId × Nat)} {sites : List Site}
    (hentries : ∀ entry ∈ entries, entry.1.FitsWords ∧ entry.2 < UInt64.size)
    (hsites : ∀ s ∈ sites, s.FitsWords) : (ofLists entries sites).FitsWords where
  entries := by
    intro entry hentry
    have hleast : ((entries.filter (·.1 = entry.1)).map Prod.snd).min? = some entry.2 := by
      rw [← distance?_ofLists entries sites]
      exact (mem_entries_iff _ _ _).mp hentry
    obtain ⟨listed, hmem, hdepth⟩ := List.mem_map.mp (List.min?_mem hleast)
    obtain ⟨hlisted, hf⟩ := List.mem_filter.mp hmem
    rw [← of_decide_eq_true hf, ← hdepth]
    exact hentries listed hlisted
  sites := by
    intro s hs
    rw [mem_sites_iff, isExecuted_ofLists, decide_eq_true_eq] at hs
    exact hsites s hs

theorem FuncId.ofJson?_toJson {id : FuncId} (h : id.FitsWords) : ofJson? id.toJson = some id := by
  have hfields : Fields.ofValue? ["module", "function"] id.toJson =
      some ⟨[("module", .nat id.module), ("function", .nat id.function)], false⟩ :=
    Fields.ofValue?_record (by decide) rfl
  have hmodule := Value.asWord?_nat h.module_lt
  have hfunction := Value.asWord?_nat h.function_lt
  unfold ofJson?
  simp only [Option.bind_eq_bind, Option.bind_eq_some_iff]
  exact ⟨_, hfields, _, (Fields.required?_of_lookup rfl _).trans hmodule,
    _, (Fields.required?_of_lookup rfl _).trans hfunction, rfl⟩

theorem Site.ofJson?_toJson {s : Site} (h : s.FitsWords) : ofJson? s.toJson = some s := by
  have hfields : Fields.ofValue? ["module", "function", "index"] s.toJson =
      some ⟨[("module", .nat s.module), ("function", .nat s.function), ("index", .nat s.index)],
        false⟩ :=
    Fields.ofValue?_record (by decide) rfl
  have hmodule := Value.asWord?_nat h.module_lt
  have hfunction := Value.asWord?_nat h.function_lt
  have hindex := Value.asWord?_nat h.index_lt
  unfold ofJson?
  simp only [Option.bind_eq_bind, Option.bind_eq_some_iff]
  exact ⟨_, hfields, _, (Fields.required?_of_lookup rfl _).trans hmodule,
    _, (Fields.required?_of_lookup rfl _).trans hfunction,
    _, (Fields.required?_of_lookup rfl _).trans hindex, rfl⟩

/-- Two lists that are written as a record are read as the record that they make up. -/
theorem Coverage.ofJson?_record {entries : List (FuncId × Nat)} {sites : List Site}
    (hentries : ∀ entry ∈ entries, entry.1.FitsWords ∧ entry.2 < UInt64.size)
    (hsites : ∀ s ∈ sites, s.FitsWords) :
    ofJson? (.record [("functions", .list entryToJson entries),
      ("executed", .list Site.toJson sites)]) = some (ofLists entries sites) := by
  have hfields : Fields.ofValue? ["functions", "executed"]
      (.record [("functions", .list entryToJson entries),
        ("executed", .list Site.toJson sites)]) =
      some ⟨[("functions", .list entryToJson entries),
        ("executed", .list Site.toJson sites)], false⟩ :=
    Fields.ofValue?_record (by decide) rfl
  have hreadEntries : (Value.list entryToJson entries).asList?
      (Value.asPair? FuncId.ofJson? Value.asWord?) = some entries := by
    refine Value.asList?_list ?_
    intro entry hentry
    obtain ⟨hf, hdepth⟩ := hentries entry hentry
    show (FuncId.ofJson? entry.1.toJson >>= fun f =>
      (Value.nat entry.2).asWord? >>= fun depth => some (f, depth)) = some entry
    rw [FuncId.ofJson?_toJson hf, Value.asWord?_nat hdepth]
    rfl
  have hreadSites : (Value.list Site.toJson sites).asList? Site.ofJson? = some sites :=
    Value.asList?_list fun s hs => Site.ofJson?_toJson (hsites s hs)
  unfold ofJson?
  simp only [Option.bind_eq_bind, Option.bind_eq_some_iff]
  exact ⟨_, hfields, _, (Fields.required?_of_lookup rfl _).trans hreadEntries,
    _, (Fields.required?_of_lookup rfl _).trans hreadSites, rfl⟩

/-- A record survives its form in JSON. -/
theorem Coverage.ofJson?_toJson {c : Coverage} (h : c.FitsWords) : ofJson? c.toJson = some c := by
  have hread := ofJson?_record h.entries h.sites
  rwa [c.ofLists_entries_sites] at hread

end Encoding

end MutationTester
