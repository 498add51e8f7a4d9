import Mathlib.Data.List.Nodup
import Mathlib.Data.List.Sigma
import MutationTester.Proofs.Build.Linking

/-!
# Names and the functions they reach

Modules have a symbol table exactly if no two functions of the program have one name
(`Program.symbolTable_lower_eq_ok_iff`). Then a name reaches the one function that has it, so
looking a name up in the table and scanning the program for it come to the same
(`Program.resolve?_eq_findFunction?`).
-/

set_option autoImplicit false

namespace MutationTester

/-- In a table that has each name once a name stands for whatever it stands beside. -/
theorem lookup_eq_some_iff_mem {α β : Type} [BEq α] [LawfulBEq α] {table : List (α × β)}
    (h : (table.map Prod.fst).Nodup) (a : α) (b : β) :
    table.lookup a = some b ↔ (a, b) ∈ table := by
  constructor
  · intro hlookup
    obtain ⟨before, after, rfl, -⟩ := List.lookup_eq_some_iff.mp hlookup
    simp
  · intro hmem
    obtain ⟨before, after, rfl⟩ := List.append_of_mem hmem
    rw [List.lookup_eq_some_iff]
    refine ⟨before, after, rfl, ?_⟩
    intro entry hentry
    rw [List.map_append, List.nodup_append] at h
    have hne := h.2.2 entry.1 (List.mem_map_of_mem hentry) a (by simp)
    simpa using hne.symm

namespace Program

variable (p : Program)

/-- No two functions have one name. -/
def NamesUnique : Prop :=
  ∀ id id' f f', p.function? id = some f → p.function? id' = some f' → f.name = f'.name → id = id'

/-- The names of a program with the positions of their functions. -/
def symbols : SymbolTable := p.functions.map fun entry => (entry.2.name, entry.1)

/-- The lowered modules of a program declare the names of the program. -/
theorem flatMap_symbols_lower : p.lower.flatMap CompiledModule.symbols = p.symbols := by
  unfold lower symbols functions CompiledModule.symbols Module.lower
  simp only [List.flatMap_map, List.map_flatMap, List.map_map]
  rfl

/-- Each position is enumerated once. -/
theorem nodup_map_fst_functions : (p.functions.map Prod.fst).Nodup := by
  unfold functions
  rw [List.map_flatMap, List.nodup_flatMap]
  constructor
  · rintro ⟨m, i⟩ -
    have hinjective : Function.Injective (FuncId.mk i) := fun _ _ h => congrArg FuncId.function h
    have hplaces := (List.nodup_zipIdx_map_snd m.functions).map hinjective
    simpa only [List.map_map, Function.comp_def] using hplaces
  · have hplaces := List.pairwise_map.mp (List.nodup_zipIdx_map_snd p.modules)
    refine hplaces.imp ?_
    rintro ⟨m, i⟩ ⟨m', i'⟩ hne id hid hid'
    simp only [List.map_map, List.mem_map, Function.comp_apply] at hid hid'
    obtain ⟨entry, -, rfl⟩ := hid
    obtain ⟨entry', -, hid⟩ := hid'
    exact hne (congrArg FuncId.module hid).symm

/-- The table has each name once exactly if no two functions have one name. -/
theorem nodup_map_fst_symbols_iff :
    (p.symbols.reverse.map Prod.fst).Nodup ↔ p.NamesUnique := by
  have hnodup : p.functions.Nodup := List.Nodup.of_map _ p.nodup_map_fst_functions
  unfold symbols
  rw [List.map_reverse, List.nodup_reverse, List.map_map, List.nodup_map_iff_inj_on hnodup]
  unfold NamesUnique
  simp only [Prod.forall, mem_functions_iff, Function.comp_apply, Prod.mk.injEq]
  constructor
  · intro h id id' f f' hf hf' hname
    exact (h id f hf id' f' hf' hname).1
  · intro h id f hf id' f' hf' hname
    obtain rfl := h id id' f f' hf hf' hname
    exact ⟨rfl, Option.some.inj (hf.symm.trans hf')⟩

/-- The lowered modules have a symbol table exactly if no two functions have one name. -/
theorem symbolTable_lower_eq_ok_iff (table : SymbolTable) :
    Executable.symbolTable p.lower = .ok table ↔ p.NamesUnique ∧ table = p.symbols.reverse := by
  rw [Executable.symbolTable_eq_ok_iff, flatMap_symbols_lower]
  constructor
  · rintro ⟨rfl, hnodup⟩
    exact ⟨p.nodup_map_fst_symbols_iff.mp hnodup, rfl⟩
  · rintro ⟨hunique, rfl⟩
    exact ⟨rfl, p.nodup_map_fst_symbols_iff.mpr hunique⟩

variable {p}

/-- Where no two functions have one name, scanning for a name finds the function that has it. -/
theorem NamesUnique.findFunction?_eq_some_iff (h : p.NamesUnique) (name : String) (id : FuncId) :
    p.findFunction? name = some id ↔ ∃ f, p.function? id = some f ∧ f.name = name := by
  unfold findFunction?
  constructor
  · intro hfind
    obtain ⟨⟨id, f⟩, hentry, rfl⟩ := Option.map_eq_some_iff.mp hfind
    exact ⟨f, (p.mem_functions_iff id f).mp (List.mem_of_find?_eq_some hentry),
      by simpa using List.find?_some hentry⟩
  · rintro ⟨f, hf, rfl⟩
    have hmem := (p.mem_functions_iff id f).mpr hf
    cases hfind : p.functions.find? fun entry => entry.2.name = f.name with
    | none => simpa using List.find?_eq_none.mp hfind (id, f) hmem
    | some entry =>
      obtain ⟨id', f'⟩ := entry
      have hname : f'.name = f.name := by simpa using List.find?_some hfind
      have hf' := (p.mem_functions_iff id' f').mp (List.mem_of_find?_eq_some hfind)
      rw [h id' id f' f hf' hf hname]
      rfl

/-- Where no two functions have one name, the table has a name at the position where scanning
finds it. -/
theorem NamesUnique.lookup_symbols (h : p.NamesUnique) (name : String) :
    p.symbols.reverse.lookup name = p.findFunction? name := by
  apply Option.ext
  intro id
  rw [lookup_eq_some_iff_mem (p.nodup_map_fst_symbols_iff.mpr h), h.findFunction?_eq_some_iff, List.mem_reverse]
  unfold symbols
  simp only [List.mem_map, Prod.exists, Prod.mk.injEq, mem_functions_iff]
  constructor
  · rintro ⟨_, f, hf, hname, rfl⟩
    exact ⟨f, hf, hname⟩
  · rintro ⟨f, hf, hname⟩
    exact ⟨id, f, hf, hname, rfl⟩

/-- A name reaches the lowered form of the function that scanning the program for it finds. -/
theorem resolve?_eq_findFunction? {x : Executable} (hmodules : x.modules = p.lower)
    (htable : Executable.symbolTable p.lower = .ok x.symbols) (name : String) :
    x.resolve? name =
      p.findFunction? name >>= fun id => (p.function? id).map fun f => f.lower id := by
  obtain ⟨hunique, hsymbols⟩ := (p.symbolTable_lower_eq_ok_iff x.symbols).mp htable
  unfold Executable.resolve?
  rw [hsymbols, hunique.lookup_symbols]
  congr 1
  funext id
  exact function?_eq_of_modules_eq hmodules id

/-- A name reaches a function exactly if this is the lowered form of a function of that name. -/
theorem resolve?_eq_some_iff {x : Executable} (hmodules : x.modules = p.lower)
    (htable : Executable.symbolTable p.lower = .ok x.symbols) (name : String) (g : CompiledFunc) :
    x.resolve? name = some g ↔
      ∃ id f, p.function? id = some f ∧ f.name = name ∧ g = f.lower id := by
  obtain ⟨hunique, -⟩ := (p.symbolTable_lower_eq_ok_iff x.symbols).mp htable
  rw [resolve?_eq_findFunction? hmodules htable, Option.bind_eq_bind, Option.bind_eq_some_iff]
  constructor
  · rintro ⟨id, hid, hg⟩
    obtain ⟨f, hf, hname⟩ := (hunique.findFunction?_eq_some_iff name id).mp hid
    rw [hf] at hg
    exact ⟨id, f, hf, hname, (Option.some.inj hg).symm⟩
  · rintro ⟨id, f, hf, hname, rfl⟩
    refine ⟨id, (hunique.findFunction?_eq_some_iff name id).mpr ⟨f, hf, hname⟩, ?_⟩
    rw [hf]
    rfl

end Program

end MutationTester
