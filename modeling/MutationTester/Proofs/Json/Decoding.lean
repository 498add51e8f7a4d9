import MutationTester.Json.Decode
import Mathlib.Data.List.Basic

/-!
# What is encoded decodes

The encoders of structures, lists and words are undone by the decoders, as long as each part is:
a record gives all its fields (`Json.Fields.ofValue?_record`), a list all its items
(`Json.Value.asList?_list`), and a number the word that it is (`Json.Value.asWord?_nat`).
-/

set_option autoImplicit false

namespace MutationTester.Json

/-- A list is decoded item by item, if each item can be. -/
theorem mapM_map_eq_some {α β : Type} {encode : α → β} {decode : β → Option α} {items : List α}
    (h : ∀ item ∈ items, decode (encode item) = some item) :
    (items.map encode).mapM decode = some items := by
  induction items with
  | nil => rfl
  | cons item items ih =>
    obtain ⟨hfirst, hothers⟩ := List.forall_mem_cons.mp h
    rw [List.map_cons, List.mapM_cons, hfirst, ih hothers]
    rfl

namespace Value

theorem asList?_list {α : Type} {encode : α → Value} {decode : Value → Option α} {items : List α}
    (h : ∀ item ∈ items, decode (encode item) = some item) :
    (list encode items).asList? decode = some items :=
  mapM_map_eq_some h

theorem asString?_text (s : String) : (text s).asString? = some s := rfl

/-- A natural number is read from its literal if it is below the bound. -/
theorem asNatBelow?_nat {bound n : Nat} (h : n < bound) : (nat n).asNatBelow? bound = some n := by
  have hpositive : ¬(n : Int) < 0 := by omega
  have hint : (nat n).asInt? = some (n : Int) := by
    simp [nat, asInt?, Number.ofInt, Number.toInt?, hpositive]
  have hrange : 0 ≤ (n : Int) ∧ (n : Int) < bound := by omega
  unfold asNatBelow?
  simp only [hint, Option.bind_eq_bind, Option.bind_some, if_pos hrange, Int.toNat_natCast]

theorem asWord?_nat {n : Nat} (h : n < UInt64.size) : (nat n).asWord? = some n :=
  asNatBelow?_nat h

theorem asUInt32?_nat (n : UInt32) : (nat n.toNat).asUInt32? = some n := by
  unfold asUInt32?
  rw [asNatBelow?_nat n.toNat_lt, Option.map_some, UInt32.ofNat_toNat]

theorem asUInt64?_nat (n : UInt64) : (nat n.toNat).asUInt64? = some n := by
  unfold asUInt64?
  rw [asNatBelow?_nat n.toNat_lt, Option.map_some, UInt64.ofNat_toNat]

theorem asInt64?_int (n : Int64) : (int n.toInt).asInt64? = some n := by
  have hint : (int n.toInt).asInt? = some n.toInt := by
    have hzero : ¬(n.toInt < 0 ∧ n.toInt.natAbs = 0) := by omega
    simp only [int, asInt?, Number.ofInt, Number.toInt?, List.isEmpty_nil, Option.isNone_none,
      decide_eq_true_eq, true_and, if_pos hzero]
    congr 1
    split <;> omega
  have hrange : Int64.minValue.toInt ≤ n.toInt ∧ n.toInt ≤ Int64.maxValue.toInt :=
    ⟨n.minValue_le_toInt, n.toInt_le⟩
  unfold asInt64?
  simp only [hint, Option.bind_eq_bind, Option.bind_some, if_pos hrange, Int64.ofInt_toInt]

/-- What may be missing is read back, if nothing that is there is written as missing. -/
theorem asOption?_optional {α : Type} {encode : α → Value} {decode : Value → Option α}
    (hnull : ∀ a, encode a ≠ .null) {o : Option α} (h : ∀ a ∈ o, decode (encode a) = some a) :
    (optional encode o).asOption? decode = some o := by
  cases o with
  | none => rfl
  | some a =>
    have hdecode := h a rfl
    have hne := hnull a
    show (encode a).asOption? decode = _
    generalize encode a = v at hdecode hne
    unfold asOption?
    split
    next => exact absurd rfl hne
    next => rw [hdecode, Option.map_some]

end Value

/-- A record gives the fields that it was made of, if the structure has such fields. -/
theorem Fields.ofValue?_record_of_subset {names : List String} {fields : List (String × Value)}
    (hdistinct : (fields.map Prod.fst).Nodup) (hnames : fields.map Prod.fst ⊆ names) :
    ofValue? names (.record fields) = some ⟨fields, false⟩ := by
  have hnamed : (fields.map fun field => (some field.1, field.2)).mapM
      (fun member : Option String × Value => member.1.map (·, member.2)) = some fields :=
    mapM_map_eq_some fun _ _ => rfl
  have hknown : fields.filter (fun entry => names.contains entry.1) = fields := by
    rw [List.filter_eq_self]
    intro field hfield
    rw [List.contains_iff_mem]
    exact hnames (List.mem_map_of_mem hfield)
  unfold ofValue? Value.record
  simp only [hnamed, Option.bind_eq_bind, Option.bind_some, hknown, if_pos hdistinct]

/-- A record gives the fields that it was made of, if they are those of the structure. -/
theorem Fields.ofValue?_record {names : List String} (hnames : names.Nodup)
    {fields : List (String × Value)} (hfields : fields.map Prod.fst = names) :
    ofValue? names (.record fields) = some ⟨fields, false⟩ := by
  subst hfields
  exact ofValue?_record_of_subset hnames (List.Subset.refl _)

/-- A field that stands among the entries is decoded. -/
theorem Fields.required?_of_lookup {α : Type} {fields : Fields} {name : String} {v : Value}
    (h : fields.entries.lookup name = some v) (decode : Value → Option α) :
    fields.required? name decode = decode v := by
  unfold required?
  rw [h]
  rfl

/-- A field that stands among the entries does not have the value that it has where it is left
out. -/
theorem Fields.withDefault?_of_lookup {α : Type} {fields : Fields} {name : String} {v : Value}
    (h : fields.entries.lookup name = some v) (default : α) (decode : Value → Option α) :
    fields.withDefault? name default decode = decode v := by
  unfold withDefault?
  rw [h]

/-- A field that stands among the entries is decoded, where it might as well be missing. -/
theorem Fields.optional?_of_lookup {α : Type} {fields : Fields} {name : String} {v : Value}
    (h : fields.entries.lookup name = some v) (decode : Value → Option α) :
    fields.optional? name decode = v.asOption? decode := by
  unfold optional?
  rw [h]

end MutationTester.Json
