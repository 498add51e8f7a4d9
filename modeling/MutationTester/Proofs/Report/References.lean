import MutationTester.CommandLine.Execution
import MutationTester.Proofs.Decimal.Words

/-!
# References to survivors

A reference resolves exactly if it is an `m` behind any number of signs, followed by a text that writes
a number, and the report has a survivor with that number (`survivorPosition?_eq_some_iff`). The lists
of a report number the survivors in the same order (`getElem?_reportLines`, `getElem?_statusLines`), and
the count that the valid references are made from is that of the survivors, so all of them agree on
which mutant has which reference (`survivor_references_agree`).
-/

set_option autoImplicit false

namespace MutationTester

section Positions

variable {α : Type}

/-- The elements of a list that are selected, counted from nothing on: what is at a position is selected,
and so many are selected before it. -/
theorem getElem?_selected_zipIdx (p : α → Bool) (l : List α) (start number position : Nat) :
    (((l.zipIdx start).filter fun entry => p entry.1).map (·.2))[number]? = some position ↔
      ∃ i a, position = start + i ∧ l[i]? = some a ∧ p a = true ∧ (l.take i).countP p = number := by
  induction l generalizing start number with
  | nil => simp
  | cons a l ih =>
    rw [List.zipIdx_cons, List.filter_cons, ← Nat.or_exists_add_one]
    simp only [List.getElem?_cons_zero, List.getElem?_cons_succ, List.take_zero, List.countP_nil,
      List.take_succ_cons, List.countP_cons, Option.some.injEq]
    by_cases ha : p a = true
    · rw [if_pos ha, List.map_cons]
      cases number with
      | zero => simpa [ha] using eq_comm
      | succ number =>
        rw [List.getElem?_cons_succ, ih]
        simp [ha, Nat.add_assoc, Nat.add_comm 1]
    · rw [if_neg ha, ih]
      simp [ha, Nat.add_assoc, Nat.add_comm 1]

/-- Of the elements that are selected, each comes after those that are selected before it. -/
theorem getElem?_filter_countP_take {p : α → Bool} {l : List α} {i : Nat} {a : α}
    (hget : l[i]? = some a) (ha : p a = true) : (l.filter p)[(l.take i).countP p]? = some a := by
  obtain ⟨hlt, rfl⟩ := List.getElem?_eq_some_iff.mp hget
  have hsplit : l.filter p = (l.take i).filter p ++ l[i] :: (l.drop (i + 1)).filter p := by
    conv => lhs; rw [← List.take_append_drop i l, List.drop_eq_getElem_cons hlt]
    rw [List.filter_append, List.filter_cons, if_pos ha]
  rw [hsplit, List.countP_eq_length_filter, List.getElem?_append_right (Nat.le_refl _), Nat.sub_self]
  rfl

theorem getElem?_append_of_last {front back : List α} {count index : Nat} {a : α}
    (hcount : back.length = count) (hget : back[index]? = some a) :
    (front ++ back)[(front ++ back).length - count + index]? = some a := by
  rw [List.length_append, hcount, Nat.add_sub_cancel, List.getElem?_append_right (Nat.le_add_right _ _),
    Nat.add_sub_cancel_left, hget]

end Positions

namespace Report

/-- A mutant at a position is the survivor with a number: it survived, and is that one of those that
did. -/
structure IsSurvivor (r : Report) (number position : Nat) (m : MutantResult) : Prop where
  getElem?_eq : r.mutants[position]? = some m
  status_eq : m.status = .survived
  number_eq : number = (r.mutants.take position).countP (fun m => m.status = .survived) + 1

section Survivors

variable {r : Report} {number position : Nat} {m : MutantResult}

theorem getElem?_survivorPositions_iff (r : Report) (index position : Nat) :
    r.survivorPositions[index]? = some position ↔ ∃ m, r.IsSurvivor (index + 1) position m := by
  unfold survivorPositions
  rw [getElem?_selected_zipIdx fun m : MutantResult => decide (m.status = .survived)]
  constructor
  · rintro ⟨i, m, rfl, hget, hstatus, rfl⟩
    rw [Nat.zero_add]
    exact ⟨m, hget, of_decide_eq_true hstatus, rfl⟩
  · rintro ⟨m, hget, hstatus, hnumber⟩
    exact ⟨position, m, (Nat.zero_add _).symm, hget, decide_eq_true hstatus,
      (Nat.succ.inj hnumber).symm⟩

theorem length_survivorPositions (r : Report) :
    r.survivorPositions.length = r.survivors.length := by
  unfold survivorPositions survivors
  rw [List.length_map, ← List.countP_eq_length_filter, ← List.countP_eq_length_filter]
  conv => rhs; rw [← List.zipIdx_map_fst 0 r.mutants, List.countP_map]
  rfl

/-- The survivors are numbered from one on without a gap. -/
theorem exists_isSurvivor (hpos : 1 ≤ number) (hle : number ≤ r.survivors.length) :
    ∃ position m, r.IsSurvivor number position m := by
  obtain ⟨index, rfl⟩ := Nat.exists_eq_add_of_le' hpos
  have hlt : index < r.survivorPositions.length := by
    rw [length_survivorPositions]
    exact hle
  exact ⟨_, (r.getElem?_survivorPositions_iff index _).mp (List.getElem?_eq_getElem hlt)⟩

/-- The survivor with a number is that one in the list of survivors. -/
theorem IsSurvivor.getElem?_survivors (h : r.IsSurvivor number position m) :
    r.survivors[number - 1]? = some m := by
  have hget := getElem?_filter_countP_take (p := fun m => m.status = .survived) h.getElem?_eq
    (decide_eq_true h.status_eq)
  rw [h.number_eq, Nat.add_sub_cancel]
  exact hget

theorem IsSurvivor.le_length (h : r.IsSurvivor number position m) :
    1 ≤ number ∧ number ≤ r.survivors.length := by
  obtain ⟨hlt, -⟩ := List.getElem?_eq_some_iff.mp h.getElem?_survivors
  have hnumber := h.number_eq
  omega

/-- A reference resolves exactly if it writes the number of a survivor. -/
theorem survivorPosition?_eq_some_iff (r : Report) (reference : String) (position : Nat) :
    r.survivorPosition? reference = some position ↔ ∃ digits number m,
      dropSigns reference = 'm' :: digits ∧ Decimal.Writes digits number ∧
        number < UInt64.size ∧ r.IsSurvivor number position m := by
  have hnumber (number : Nat) : referenceNumber? reference = some number ↔
      ∃ digits, dropSigns reference = 'm' :: digits ∧ number < UInt64.size ∧
        Decimal.Writes digits number := by
    unfold referenceNumber?
    split
    next digits hdigits =>
      rw [hdigits, Decimal.wordOfChars?_eq_some_iff]
      simp
    next hother =>
      constructor
      · exact nofun
      · rintro ⟨digits, hdigits, -⟩
        exact (hother digits hdigits).elim
  unfold survivorPosition?
  constructor
  · intro h
    split at h
    next index hindex =>
      obtain ⟨digits, hdigits, hword, hwrites⟩ := (hnumber _).mp hindex
      obtain ⟨m, hm⟩ := (r.getElem?_survivorPositions_iff index position).mp h
      exact ⟨digits, index + 1, m, hdigits, hwrites, hword, hm⟩
    next => cases h
  · rintro ⟨digits, number, m, hdigits, hwrites, hword, hm⟩
    obtain ⟨index, rfl⟩ := Nat.exists_eq_add_of_le' hm.le_length.1
    rw [(hnumber _).mpr ⟨digits, hdigits, hword, hwrites⟩]
    exact (r.getElem?_survivorPositions_iff index position).mpr ⟨m, hm⟩

/-- The reference that lists give to a number writes that number, with any number of signs. -/
theorem dropSigns_survivorReference (signs number : Nat) :
    dropSigns (String.ofList (List.replicate signs '@') ++ "m" ++ number.repr) =
      'm' :: number.repr.toList := by
  unfold dropSigns
  rw [String.toList_append, String.toList_append, String.toList_ofList, List.append_assoc,
    List.dropWhile_append, List.dropWhile_replicate, if_pos (decide_eq_true rfl)]
  rfl

/-- A number resolves exactly if a survivor has it. -/
theorem survivorPosition?_number_iff {r : Report} (hword : r.survivors.length < UInt64.size)
    (signs number position : Nat) :
    r.survivorPosition? (String.ofList (List.replicate signs '@') ++ "m" ++ number.repr) =
        some position ↔ ∃ m, r.IsSurvivor number position m := by
  rw [survivorPosition?_eq_some_iff, dropSigns_survivorReference]
  constructor
  · rintro ⟨digits, number', m, hdigits, hwrites, hword', hm⟩
    cases hdigits
    obtain rfl := hwrites.unique (Decimal.writes_repr number)
    exact ⟨m, hm⟩
  · rintro ⟨m, hm⟩
    have hle := hm.le_length.2
    exact ⟨number.repr.toList, number, m, rfl, Decimal.writes_repr number, by omega, hm⟩

/-! ## Where survivors are listed -/

theorem length_numberedSurvivors (r : Report) :
    r.numberedSurvivors.length = r.survivors.length := List.length_zipIdx

theorem getElem?_numberedSurvivors (h : r.IsSurvivor number position m) :
    r.numberedSurvivors[number - 1]? = some (m, number) := by
  have hpos := h.le_length.1
  unfold numberedSurvivors
  rw [List.getElem?_zipIdx, h.getElem?_survivors, Option.map_some, Nat.add_sub_cancel' hpos]

/-- The lines at the end of a run list each survivor with its number, all of them last. -/
theorem getElem?_reportLines (hcount : r.survived = r.survivors.length)
    (h : r.IsSurvivor number position m) (styled : Bool) :
    (Display.reportLines styled r)[
        (Display.reportLines styled r).length - r.survived + (number - 1)]? =
      some (Display.survivorEntry styled m number ++ " " ++
        Style.faint.apply styled ("[" ++ m.operator ++ "]")) := by
  have hsome : r.survived ≠ 0 := by
    have hle := h.le_length
    omega
  unfold Display.reportLines
  rw [if_neg hsome, List.append_cons]
  refine getElem?_append_of_last ?_ ?_
  · rw [List.length_map, length_numberedSurvivors, hcount]
  · rw [List.getElem?_map, getElem?_numberedSurvivors h]
    rfl

/-- The lines of a report that is looked at later list each survivor with its number, after two other
lines. -/
theorem getElem?_statusLines (hcount : r.survived = r.survivors.length)
    (h : r.IsSurvivor number position m) (styled : Bool) :
    (Display.statusLines styled r)[number + 1]? =
      some (Display.survivorEntry styled m number ++ " " ++ m.operator) := by
  obtain ⟨hpos, hle⟩ := h.le_length
  have hsome : r.survived ≠ 0 := by omega
  have hlast : number - 1 < r.numberedSurvivors.length := by
    rw [length_numberedSurvivors]
    omega
  obtain ⟨index, rfl⟩ := Nat.exists_eq_add_of_le' hpos
  unfold Display.statusLines
  rw [if_neg hsome, List.getElem?_cons_succ, List.cons_append, List.getElem?_cons_succ,
    List.getElem?_append_left (by rwa [List.length_map]), List.getElem?_map]
  have hentry := getElem?_numberedSurvivors h
  rw [Nat.add_sub_cancel] at hentry
  rw [hentry]
  rfl

end Survivors

/-- References to survivors agree wherever they are used. In the report of any results, of which there are
no more than a word can count, the number of each survivor resolves behind any number of signs. It
resolves to the position of the survivor that has this number in the list of survivors, and that both
readable lists show with it. A reference resolves only if it is an `m` behind signs and writes the number
of a survivor, and then to the position of that survivor. Where a reference does not resolve, the command
that shows survivors lists other references, and these are the numbers that do resolve. -/
theorem survivor_references_agree (mutants : List MutantResult) (tests : List Test)
    (elapsed : Duration) (hword : mutants.length < UInt64.size) :
    let r := aggregate mutants tests elapsed
    let numbers := List.range' 1 r.survived
    (∀ number ∈ numbers, ∀ signs, ∃ position m,
      r.survivorPosition? (String.ofList (List.replicate signs '@') ++ "m" ++ number.repr) =
          some position ∧
        r.IsSurvivor number position m ∧ r.survivors[number - 1]? = some m ∧
        ∀ styled, (Display.reportLines styled r)[
            (Display.reportLines styled r).length - r.survived + (number - 1)]? =
              some (Display.survivorEntry styled m number ++ " " ++
                Style.faint.apply styled ("[" ++ m.operator ++ "]")) ∧
          (Display.statusLines styled r)[number + 1]? =
            some (Display.survivorEntry styled m number ++ " " ++ m.operator)) ∧
      (∀ reference position, r.survivorPosition? reference = some position ↔
        ∃ digits number m, dropSigns reference = 'm' :: digits ∧ Decimal.Writes digits number ∧
          number < UInt64.size ∧ number ∈ numbers ∧ r.IsSurvivor number position m) ∧
      (∀ reference, r.survivorPosition? reference = none → ∀ styled json,
        CommandLine.detailReply styled reference json r =
          .error styled 2 ("Mutant " ++ reference ++ " not found. Valid refs: " ++
            ", ".intercalate (numbers.map fun number => "@m" ++ number.repr))) ∧
      ∀ number, (r.survivorPosition? ("@m" ++ number.repr)).isSome = true ↔ number ∈ numbers := by
  intro r numbers
  have hcount : r.survived = r.survivors.length := List.countP_eq_length_filter
  have hfits : r.survivors.length < UInt64.size :=
    Nat.lt_of_le_of_lt (List.length_filter_le _ _) hword
  have hnumbers {number position : Nat} {m : MutantResult}
      (hm : r.IsSurvivor number position m) : number ∈ numbers := by
    have hle := hm.le_length
    exact List.mem_range'_1.mpr (by omega)
  have hexists {number : Nat} (h : number ∈ numbers) :
      ∃ position m, r.IsSurvivor number position m := by
    have hrange := List.mem_range'_1.mp h
    exact exists_isSurvivor hrange.1 (by omega)
  refine ⟨?_, ?_, ?_, ?_⟩
  · intro number hnumber signs
    obtain ⟨position, m, hm⟩ := hexists hnumber
    refine ⟨position, m, ?_, hm, hm.getElem?_survivors, ?_⟩
    · exact (survivorPosition?_number_iff hfits signs number position).mpr ⟨m, hm⟩
    · exact fun styled =>
        ⟨getElem?_reportLines hcount hm styled, getElem?_statusLines hcount hm styled⟩
  · intro reference position
    rw [survivorPosition?_eq_some_iff]
    constructor
    · rintro ⟨digits, number, m, hdigits, hwrites, hsize, hm⟩
      exact ⟨digits, number, m, hdigits, hwrites, hsize, hnumbers hm, hm⟩
    · rintro ⟨digits, number, m, hdigits, hwrites, hsize, -, hm⟩
      exact ⟨digits, number, m, hdigits, hwrites, hsize, hm⟩
  · intro reference hnone styled json
    unfold CommandLine.detailReply
    rw [hnone]
    rfl
  · intro number
    have hresolves := survivorPosition?_number_iff hfits 1 number
    rw [Option.isSome_iff_exists]
    constructor
    · rintro ⟨position, hposition⟩
      obtain ⟨m, hm⟩ := (hresolves position).mp hposition
      exact hnumbers hm
    · intro hnumber
      obtain ⟨position, m, hm⟩ := hexists hnumber
      exact ⟨position, (hresolves position).mpr ⟨m, hm⟩⟩

/-- Results of four mutants, two of which survived. -/
def fourResults : List MutantResult :=
  [MutantStatus.survived, .killed, .notCovered, .survived].map
    (MutantResult.bare ⟨.addToSub, ⟨0, 0, 0⟩, "add_to_sub@lib::double#0", "lib::double"⟩)

/-- The second survivor is found at the end of the list, also by unusual ways to write its number. There
is no third one, and none with the number zero. -/
theorem second_survivor_resolves :
    let r := aggregate fourResults [] 0
    fourResults.length < UInt64.size ∧
      (["m2", "@m2", "@@m002", "@m+2"].map r.survivorPosition?) = List.replicate 4 (some 3) ∧
      r.survivorPosition? "@m3" = none ∧ r.survivorPosition? "@m0" = none := by
  intro r
  have hword : fourResults.length < UInt64.size := by decide
  obtain ⟨-, hresolves, -, hnumbers⟩ := survivor_references_agree fourResults [] 0 hword
  have hsecond : r.IsSurvivor 2 3 fourResults[3] := ⟨rfl, rfl, rfl⟩
  have hwritten (reference : String) (digits : List Char)
      (hreference : dropSigns reference = 'm' :: digits) (hwrites : Decimal.Writes digits 2) :
      r.survivorPosition? reference = some 3 :=
    (hresolves reference 3).mpr
      ⟨digits, 2, fourResults[3], hreference, hwrites, by decide, by decide, hsecond⟩
  have hnone (number : Nat) (h : number ∉ List.range' 1 r.survived) :
      r.survivorPosition? ("@m" ++ number.repr) = none :=
    Option.not_isSome_iff_eq_none.mp (mt (hnumbers number).mp h)
  have hplain : Decimal.Writes ['2'] 2 := ⟨[], 0, .inl rfl, rfl⟩
  have hzeros : Decimal.Writes ['0', '0', '2'] 2 := ⟨[], 2, .inl rfl, rfl⟩
  have hplus : Decimal.Writes ['+', '2'] 2 := ⟨['+'], 0, .inr rfl, rfl⟩
  refine ⟨hword, ?_, hnone 3 (by decide), hnone 0 (by decide)⟩
  simp only [List.map_cons, List.map_nil, hwritten "m2" _ rfl hplain,
    hwritten "@m2" _ rfl hplain, hwritten "@@m002" _ rfl hzeros, hwritten "@m+2" _ rfl hplus,
    List.replicate_succ, List.replicate_zero]

end Report

end MutationTester
