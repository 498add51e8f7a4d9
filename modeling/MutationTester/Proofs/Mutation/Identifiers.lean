import Std.Data.String.ToNat
import MutationTester.Mutation.Point
import MutationTester.Proofs.Build.Acceptance

/-!
# What the id of a point tells

The id of a point tells its operator, the qualified name of its function and its index, whatever
characters the names are made of (`Point.id_eq_iff`). A qualified name does not tell where the
name of the module ends, so functions of different names share one if one name is the other with
the separator further to the right (`Program.qualifiedName_eq_iff`). The ids of a program tell all
its points apart exactly if this is nowhere so (`Point.ids_injective_iff`).
-/

set_option autoImplicit false

namespace MutationTester

/-! ## Texts with separators -/

/-- A text is cut at the first place of a separator in one way. -/
theorem eq_of_append_separator {α : Type} {c : α} {x x' y y' : List α}
    (h : x ++ c :: y = x' ++ c :: y') (hx : c ∉ x) (hx' : c ∉ x') : x = x' ∧ y = y' := by
  obtain ⟨more, rfl, hrest⟩ | ⟨more, rfl, hrest⟩ := List.append_eq_append_iff.mp h
  · cases more with
    | nil => exact ⟨(List.append_nil x).symm, (List.cons.inj hrest).2⟩
    | cons d more =>
      obtain ⟨rfl, -⟩ := List.cons.inj hrest
      simp at hx'
  · cases more with
    | nil => exact ⟨List.append_nil x', (List.cons.inj hrest).2.symm⟩
    | cons d more =>
      obtain ⟨rfl, -⟩ := List.cons.inj hrest
      simp at hx

/-- A text is cut at the last place of a separator in one way. -/
theorem eq_of_append_last_separator {α : Type} {c : α} {x x' y y' : List α}
    (h : x ++ c :: y = x' ++ c :: y') (hy : c ∉ y) (hy' : c ∉ y') : x = x' ∧ y = y' := by
  have hreverse : y.reverse ++ c :: x.reverse = y'.reverse ++ c :: x'.reverse := by
    simpa using congrArg List.reverse h
  obtain ⟨hback, hfront⟩ := eq_of_append_separator hreverse (by simpa using hy) (by simpa using hy')
  exact ⟨List.reverse_inj.mp hfront, List.reverse_inj.mp hback⟩

/-- The parts of a qualified name in which the separator is further to the right: the name of the
module takes in what the name of the function began with. -/
def Regrouped (m f m' f' : String) : Prop :=
  (m' = m ++ ":" ∧ f = ":" ++ f') ∨ ∃ part, m' = m ++ "::" ++ part ∧ f = part ++ "::" ++ f'

/-- In regrouped names the name of the function has become shorter. -/
theorem Regrouped.length_lt {m f m' f' : String} (h : Regrouped m f m' f') :
    f'.length < f.length := by
  have hone : ":".length = 1 := rfl
  have htwo : "::".length = 2 := rfl
  obtain ⟨-, rfl⟩ | ⟨part, -, rfl⟩ := h
  · rw [String.length_append]
    omega
  · rw [String.length_append, String.length_append]
    omega

/-- If the name of a module goes on in the other, so does the separator after it: the two stand at
the same place, or a part of the name of the function is now in that of the module. -/
theorem eq_or_regrouped_of_append {m f m' f' : String} {more : List Char}
    (hm : m'.toList = m.toList ++ more)
    (hf : ':' :: ':' :: f.toList = more ++ ':' :: ':' :: f'.toList) :
    (m = m' ∧ f = f') ∨ Regrouped m f m' f' := by
  -- by how far the separator has moved; by one place it overlaps with where it was
  match more with
  | [] =>
    simp only [List.append_nil, String.toList_inj] at hm
    simp only [List.nil_append, List.cons.injEq, true_and, String.toList_inj] at hf
    exact Or.inl ⟨hm.symm, hf⟩
  | [c] =>
    simp only [List.cons_append, List.nil_append, List.cons.injEq] at hf
    obtain ⟨rfl, -, hf⟩ := hf
    refine Or.inr (Or.inl ⟨String.toList_inj.mp ?_, String.toList_inj.mp ?_⟩)
    · rw [hm, String.toList_append]
      rfl
    · rw [hf, String.toList_append]
      rfl
  | c :: d :: part =>
    simp only [List.cons_append, List.cons.injEq] at hf
    obtain ⟨rfl, rfl, hf⟩ := hf
    refine Or.inr (Or.inr ⟨String.ofList part, String.toList_inj.mp ?_, String.toList_inj.mp ?_⟩)
    · simp [hm]
    · simp [hf]

/-- Two pairs of names make one qualified name exactly if they are the same or one is the other
regrouped. -/
theorem qualified_eq_iff (m f m' f' : String) :
    m ++ "::" ++ f = m' ++ "::" ++ f' ↔
      (m = m' ∧ f = f') ∨ Regrouped m f m' f' ∨ Regrouped m' f' m f := by
  constructor
  · intro h
    have hchars : m.toList ++ ':' :: ':' :: f.toList = m'.toList ++ ':' :: ':' :: f'.toList := by
      simpa using congrArg String.toList h
    obtain ⟨more, hm, hf⟩ | ⟨more, hm, hf⟩ := List.append_eq_append_iff.mp hchars
    · exact (eq_or_regrouped_of_append hm hf).imp_right Or.inl
    · obtain ⟨hm, hf⟩ | hregrouped := eq_or_regrouped_of_append hm hf
      · exact Or.inl ⟨hm.symm, hf.symm⟩
      · exact Or.inr (Or.inr hregrouped)
  · rintro (⟨rfl, rfl⟩ | (⟨rfl, rfl⟩ | ⟨part, rfl, rfl⟩) | (⟨rfl, rfl⟩ | ⟨part, rfl, rfl⟩))
    · rfl
    all_goals
      apply String.toList_inj.mp
      simp

/-! ## The parts of an id -/

/-- No name of an operator has the character that ends it in an id. -/
theorem Operator.not_mem_name (op : Operator) : '@' ∉ op.name.toList := by
  cases op <;> decide

/-- Different operators have different names. -/
theorem Operator.name_inj {op op' : Operator} : op.name = op'.name ↔ op = op' := by
  cases op <;> cases op' <;> decide

/-- A number is written without the character that it comes after in an id. -/
theorem not_mem_repr (n : Nat) : '#' ∉ n.repr.toList := by
  intro hmem
  rw [Nat.toList_repr] at hmem
  have hdigit := Nat.isDigit_of_mem_toDigits (by decide) (by decide) hmem
  exact absurd hdigit (by decide)

/-- The id of a point tells its operator, the qualified name of its function and its index. -/
theorem Point.id_eq_iff (p : Program) (op op' : Operator) (site site' : Site) :
    (create p op site).id = (create p op' site').id ↔
      op = op' ∧ site.index = site'.index ∧
        p.qualifiedName site.funcId = p.qualifiedName site'.funcId := by
  unfold create
  dsimp only
  constructor
  · intro h
    have hchars := congrArg String.toList h
    have hat : "@".toList = ['@'] := rfl
    have hhash : "#".toList = ['#'] := rfl
    simp only [String.toList_append, hat, hhash, List.append_assoc, List.singleton_append] at hchars
    rw [← List.append_assoc, ← List.append_assoc] at hchars
    obtain ⟨hfront, hindex⟩ := eq_of_append_last_separator hchars (not_mem_repr _) (not_mem_repr _)
    obtain ⟨hop, hfunction⟩ := eq_of_append_separator hfront op.not_mem_name op'.not_mem_name
    exact ⟨Operator.name_inj.mp (String.toList_inj.mp hop),
      Nat.repr_inj.mp (String.toList_inj.mp hindex), String.toList_inj.mp hfunction⟩
  · rintro ⟨rfl, hindex, hfunction⟩
    rw [hindex, hfunction]

/-! ## Functions that share a qualified name -/

namespace Program

/-- The names of the second function and its module are those of the first regrouped. -/
def Regroups (p : Program) (id id' : FuncId) : Prop :=
  ∃ m f m' f', p.modules[id.module]? = some m ∧ p.function? id = some f ∧
    p.modules[id'.module]? = some m' ∧ p.function? id' = some f' ∧
    Regrouped m.name f.name m'.name f'.name

variable {p : Program}

/-- The qualified name of a function of the program is made of two names. -/
theorem exists_qualifiedName_eq {id : FuncId} {f : Func} (hf : p.function? id = some f) :
    ∃ m, p.modules[id.module]? = some m ∧ p.qualifiedName id = m.name ++ "::" ++ f.name := by
  obtain ⟨m, hm, -⟩ := (p.function?_eq_some_iff id f).mp hf
  refine ⟨m, hm, ?_⟩
  unfold qualifiedName
  rw [hm, hf]

/-- Functions of the program are regrouped if their names and those of their modules are. -/
theorem regroups_iff {id id' : FuncId} {m m' : Module} {f f' : Func}
    (hm : p.modules[id.module]? = some m) (hf : p.function? id = some f)
    (hm' : p.modules[id'.module]? = some m') (hf' : p.function? id' = some f') :
    p.Regroups id id' ↔ Regrouped m.name f.name m'.name f'.name := by
  constructor
  · rintro ⟨n, g, n', g', hn, hg, hn', hg', hregrouped⟩
    obtain rfl := Option.some.inj (hm.symm.trans hn)
    obtain rfl := Option.some.inj (hf.symm.trans hg)
    obtain rfl := Option.some.inj (hm'.symm.trans hn')
    obtain rfl := Option.some.inj (hf'.symm.trans hg')
    exact hregrouped
  · intro hregrouped
    exact ⟨m, f, m', f', hm, hf, hm', hf', hregrouped⟩

/-- A function is not regrouped into itself. -/
theorem Regroups.ne {id id' : FuncId} (h : p.Regroups id id') : id ≠ id' := by
  rintro rfl
  obtain ⟨m, f, m', f', -, hf, -, hf', hregrouped⟩ := h
  obtain rfl := Option.some.inj (hf.symm.trans hf')
  exact absurd hregrouped.length_lt (Nat.lt_irrefl _)

/-- Functions share a qualified name exactly if they are one, or their names are those of the other
regrouped, provided that a name stands for one function. -/
theorem qualifiedName_eq_iff (hunique : p.NamesUnique) {id id' : FuncId} {f f' : Func}
    (hf : p.function? id = some f) (hf' : p.function? id' = some f') :
    p.qualifiedName id = p.qualifiedName id' ↔
      id = id' ∨ p.Regroups id id' ∨ p.Regroups id' id := by
  obtain ⟨m, hm, hname⟩ := exists_qualifiedName_eq hf
  obtain ⟨m', hm', hname'⟩ := exists_qualifiedName_eq hf'
  rw [hname, hname', qualified_eq_iff, regroups_iff hm hf hm' hf', regroups_iff hm' hf' hm hf]
  refine or_congr_left ?_
  constructor
  · rintro ⟨-, hsame⟩
    exact hunique id id' f f' hf hf' hsame
  · rintro rfl
    obtain rfl := Option.some.inj (hm.symm.trans hm')
    obtain rfl := Option.some.inj (hf.symm.trans hf')
    exact ⟨rfl, rfl⟩

/-- Where no name of a function has a colon no names are regrouped. -/
theorem not_regroups_of_no_colon (h : ∀ id f, p.function? id = some f → ':' ∉ f.name.toList)
    (id id' : FuncId) : ¬ p.Regroups id id' := by
  rintro ⟨m, f, m', f', -, hf, -, -, ⟨-, hname⟩ | ⟨part, -, hname⟩⟩
  · exact h id f hf (by simp [hname])
  · exact h id f hf (by simp [hname])

end Program

/-- A function of a program that builds has a first instruction. -/
theorem Program.Builds.exists_instruction_zero {p : Program} {x : Executable} (hx : p.Builds x)
    {id : FuncId} {f : Func} (hf : p.function? id = some f) :
    ∃ i, p.instruction? (id.site 0) = some i := by
  obtain ⟨last, hlast, -⟩ := hx.wellFormed.closed id f hf
  have hlength := List.length_pos_of_mem (List.mem_of_getLast? hlast)
  refine ⟨f.body[0], (p.instruction?_eq_some_iff _ _).mpr ⟨f, hf, ?_⟩⟩
  exact List.getElem?_eq_getElem hlength

/-! ## The ids of a program -/

namespace Point

variable {p : Program} {x : Executable}

/-- At values of a program that builds, two ids are the same exactly if operators and indices are
and the functions are one or have regrouped names. -/
theorem id_eq_iff_of_builds (hx : p.Builds x) {op op' : Operator} {site site' : Site}
    {i i' : Instruction} (hi : p.instruction? site = some i) (hi' : p.instruction? site' = some i') :
    (create p op site).id = (create p op' site').id ↔
      op = op' ∧ site.index = site'.index ∧
        (site.funcId = site'.funcId ∨ p.Regroups site.funcId site'.funcId ∨
          p.Regroups site'.funcId site.funcId) := by
  obtain ⟨f, hf, -⟩ := (p.instruction?_eq_some_iff site i).mp hi
  obtain ⟨f', hf', -⟩ := (p.instruction?_eq_some_iff site' i').mp hi'
  rw [id_eq_iff, Program.qualifiedName_eq_iff hx.wellFormed.names_unique hf hf']

/-- The ids of a program that builds tell its points apart exactly if no two of its functions have
regrouped names. -/
theorem ids_injective_iff (hx : p.Builds x) :
    (∀ op op' site site' i i', p.instruction? site = some i → p.instruction? site' = some i' →
        (create p op site).id = (create p op' site').id → op = op' ∧ site = site') ↔
      ∀ id id', ¬ p.Regroups id id' := by
  constructor
  · intro hinjective id₁ id₂ hregroups
    have ⟨_, f, _, f', _, hf, _, hf', _⟩ := hregroups
    obtain ⟨i, hi⟩ := hx.exists_instruction_zero hf
    obtain ⟨i', hi'⟩ := hx.exists_instruction_zero hf'
    -- one operator at the first instructions of both functions
    have hids : (create p .addToSub (id₁.site 0)).id = (create p .addToSub (id₂.site 0)).id :=
      (id_eq_iff_of_builds hx hi hi').mpr ⟨rfl, rfl, Or.inr (Or.inl hregroups)⟩
    have hsite := (hinjective _ _ _ _ i i' hi hi' hids).2
    exact hregroups.ne (congrArg Site.funcId hsite)
  · intro hnone op op' site site' i i' hi hi' hids
    obtain ⟨hop, hindex, hfunction | hregroups | hregroups⟩ :=
      (id_eq_iff_of_builds hx hi hi').mp hids
    · exact ⟨hop, (Site.eq_iff site site').mpr ⟨hfunction, hindex⟩⟩
    · exact absurd hregroups (hnone _ _)
    · exact absurd hregroups (hnone _ _)

end Point

end MutationTester
