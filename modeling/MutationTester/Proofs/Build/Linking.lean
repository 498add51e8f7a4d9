import MutationTester.Build.CompiledProgram
import MutationTester.Proofs.Program.Editing

/-!
# What compiling and linking give

A program compiles exactly if none of its modules has a defect, and then to the lowered modules
(`Program.compile_eq`). Lowered modules link exactly if their names are all different and no
call is bad (`Executable.link_eq_ok_iff`, `Executable.symbolTable_eq_ok_iff`), and then the
function at a position is the lowered function of the program (`Program.Builds.function?_eq`).
-/

set_option autoImplicit false

namespace MutationTester

namespace Program

/-- The compiled modules of a program, whether or not it has a defect. -/
def lower (p : Program) : List CompiledModule :=
  p.modules.zipIdx.map fun (m, index) => m.lower index

/-- The defect of the first module that has one. -/
def defect? (p : Program) : Option BuildError := p.modules.findSome? Module.defect?

/-- A program builds to an executable if all its modules compile and link to it. -/
def Builds (p : Program) (x : Executable) : Prop :=
  p.compile >>= CompiledProgram.executable = .ok x

/-! ## Compiling -/

/-- Modules compile one after the other, and the first defect decides. -/
theorem mapM_compile_eq (modules : List Module) (start : Nat) :
    ((modules.zipIdx start).mapM fun (m, index) => m.compile index) =
      match modules.findSome? Module.defect? with
      | some e => .error e
      | none => .ok ((modules.zipIdx start).map fun (m, index) => m.lower index) := by
  induction modules generalizing start with
  | nil => rfl
  | cons m modules ih =>
    rw [List.zipIdx_cons, List.mapM_cons, ih]
    cases hm : m.defect? with
    | some e => simp [Module.compile, hm, bind, Except.bind]
    | none =>
      cases hrest : modules.findSome? Module.defect? with
      | some e => simp [Module.compile, hm, hrest, bind, Except.bind]
      | none => simp [Module.compile, hm, hrest, bind, Except.bind, pure, Except.pure]

/-- A program compiles to its lowered modules unless a module has a defect. -/
theorem compile_eq (p : Program) :
    p.compile = match p.defect? with
      | some e => .error e
      | none => .ok ⟨p.lower⟩ := by
  unfold compile
  rw [mapM_compile_eq]
  unfold defect? lower
  cases p.modules.findSome? Module.defect? <;> rfl

/-- A program compiles exactly if no module has a defect. -/
theorem compile_eq_ok_iff (p : Program) (compiled : CompiledProgram) :
    p.compile = .ok compiled ↔ p.defect? = none ∧ compiled = ⟨p.lower⟩ := by
  rw [compile_eq]
  cases p.defect? with
  | some e => simp
  | none => simp [eq_comm]

/-- A program builds exactly if no module has a defect and its lowered modules link. -/
theorem builds_iff (p : Program) (x : Executable) :
    p.Builds x ↔ p.defect? = none ∧ Executable.link p.lower = .ok x := by
  unfold Builds
  rw [compile_eq]
  cases p.defect? with
  | some e => simp [bind, Except.bind]
  | none => simp [bind, Except.bind, CompiledProgram.executable]

/-- The lowered module at a position. -/
theorem getElem?_lower (p : Program) (k : Nat) :
    p.lower[k]? = p.modules[k]?.map fun m => m.lower k := by
  unfold lower
  rw [List.getElem?_map, List.getElem?_zipIdx, Option.map_map]
  simp [Function.comp_def]

end Program

/-! ## Linking -/

/-- The names that a module declares, with the positions of their functions. -/
def CompiledModule.symbols (m : CompiledModule) : SymbolTable :=
  m.functions.map fun f => (f.name, f.id)

namespace Executable

/-- Declaring functions succeeds exactly if no name comes to stand twice in the table. -/
theorem foldlM_declare_eq_ok_iff (modules : List CompiledModule) (m : CompiledModule)
    (functions : List CompiledFunc) (table result : SymbolTable)
    (htable : (table.map Prod.fst).Nodup) :
    functions.foldlM (declare modules m) table = .ok result ↔
      result = (functions.map fun f => (f.name, f.id)).reverse ++ table ∧
        (result.map Prod.fst).Nodup := by
  induction functions generalizing table with
  | nil =>
    simp only [List.foldlM_nil, List.map_nil, List.reverse_nil, List.nil_append]
    constructor
    · intro h
      cases h
      exact ⟨rfl, htable⟩
    · rintro ⟨rfl, -⟩
      rfl
  | cons f functions ih =>
    rw [List.foldlM_cons]
    cases hlookup : table.lookup f.name with
    | some earlier =>
      have hmem : f.name ∈ table.map Prod.fst := by
        obtain ⟨before, rest, htab, -⟩ := List.lookup_eq_some_iff.mp hlookup
        rw [htab]
        simp
      have hfails : declare modules m table f = .error
          (.duplicateName f.name ((modules[earlier.module]?.map CompiledModule.name).getD "")
            m.name) := by
        unfold declare
        rw [hlookup]
      rw [hfails]
      constructor
      · intro h
        cases h
      · rintro ⟨rfl, hnodup⟩
        -- the new name is in the part of the table that was there before
        rw [List.map_append, List.nodup_append] at hnodup
        exact absurd rfl (hnodup.2.2 f.name (by simp) f.name hmem)
    | none =>
      have hmem : f.name ∉ table.map Prod.fst := by
        rw [List.lookup_eq_none_iff] at hlookup
        intro h
        obtain ⟨entry, hentry, hname⟩ := List.mem_map.mp h
        have := hlookup entry hentry
        simp [hname] at this
      have hok : declare modules m table f = .ok ((f.name, f.id) :: table) := by
        unfold declare
        rw [hlookup]
      rw [hok]
      show functions.foldlM (declare modules m) ((f.name, f.id) :: table) = .ok result ↔ _
      rw [ih ((f.name, f.id) :: table) (List.nodup_cons.mpr ⟨hmem, htable⟩)]
      simp

/-- The table of some modules, begun with a table that is there, exists exactly if no name comes
to stand in it twice. -/
theorem foldlM_symbols_eq_ok_iff (all modules : List CompiledModule) (table result : SymbolTable)
    (htable : (table.map Prod.fst).Nodup) :
    modules.foldlM (fun table m => m.functions.foldlM (declare all m) table) table = .ok result ↔
      result = (modules.flatMap CompiledModule.symbols).reverse ++ table ∧
        (result.map Prod.fst).Nodup := by
  induction modules generalizing table with
  | nil =>
    simp only [List.foldlM_nil, List.flatMap_nil, List.reverse_nil, List.nil_append]
    constructor
    · intro h
      cases h
      exact ⟨rfl, htable⟩
    · rintro ⟨rfl, -⟩
      rfl
  | cons m modules ih =>
    rw [List.foldlM_cons]
    cases hm : m.functions.foldlM (declare all m) table with
    | error e =>
      constructor
      · intro h
        cases h
      · rintro ⟨rfl, hnodup⟩
        -- the names of the first module alone would already make a table
        have hfirst : ((m.symbols.reverse ++ table).map Prod.fst).Nodup := by
          refine List.Sublist.nodup (List.Sublist.map _ ?_) hnodup
          rw [List.flatMap_cons, List.reverse_append, List.append_assoc]
          exact List.sublist_append_right _ _
        have := (foldlM_declare_eq_ok_iff all m m.functions table _ htable).mpr ⟨rfl, hfirst⟩
        rw [hm] at this
        cases this
    | ok extended =>
      obtain ⟨rfl, hnodup⟩ := (foldlM_declare_eq_ok_iff all m m.functions table _ htable).mp hm
      show modules.foldlM _ _ = Except.ok result ↔ _
      rw [ih _ hnodup]
      simp [CompiledModule.symbols]

/-- There is a symbol table exactly if all names are different, and then it lists them. -/
theorem symbolTable_eq_ok_iff (modules : List CompiledModule) (table : SymbolTable) :
    symbolTable modules = .ok table ↔
      table = (modules.flatMap CompiledModule.symbols).reverse ∧
        (table.map Prod.fst).Nodup := by
  unfold symbolTable
  rw [foldlM_symbols_eq_ok_iff modules modules [] table List.nodup_nil, List.append_nil]

/-- Modules link exactly if they have a symbol table and no call is bad. -/
theorem link_eq_ok_iff (modules : List CompiledModule) (x : Executable) :
    link modules = .ok x ↔
      x.modules = modules ∧ symbolTable modules = .ok x.symbols ∧ x.defect? = none := by
  obtain ⟨xmodules, xsymbols⟩ := x
  unfold link
  cases htable : symbolTable modules with
  | error e => simp [bind, Except.bind]
  | ok table =>
    show (match (⟨modules, table⟩ : Executable).defect? with
      | some e => .error e
      | none => .ok ⟨modules, table⟩ : Except BuildError Executable) = _ ↔ _
    cases hdefect : (⟨modules, table⟩ : Executable).defect? with
    | some e =>
      simp only [reduceCtorEq, Except.ok.injEq, false_iff, not_and]
      rintro rfl rfl
      simp [hdefect]
    | none =>
      simp only [Except.ok.injEq, Executable.mk.injEq]
      constructor
      · rintro ⟨rfl, rfl⟩
        exact ⟨rfl, rfl, hdefect⟩
      · rintro ⟨rfl, rfl, -⟩
        exact ⟨rfl, rfl⟩

/-- Modules that do not link have no symbol table, or with the table that they have a call is
bad. -/
theorem of_link_eq_error {modules : List CompiledModule} {e : BuildError}
    (h : link modules = .error e) :
    symbolTable modules = .error e ∨
      ∃ table, symbolTable modules = .ok table ∧
        (⟨modules, table⟩ : Executable).defect? = some e := by
  unfold link at h
  cases htable : symbolTable modules with
  | error e' =>
    rw [htable] at h
    cases h
    exact Or.inl rfl
  | ok table =>
    simp only [htable, bind, Except.bind] at h
    split at h
    · next hdefect =>
      cases h
      exact Or.inr ⟨table, rfl, hdefect⟩
    · cases h

end Executable

/-! ## The functions of an executable -/

/-- Where an executable has the lowered modules of a program, its functions are the lowered
functions of the program. -/
theorem Program.function?_eq_of_modules_eq {p : Program} {x : Executable}
    (h : x.modules = p.lower) (id : FuncId) :
    x.function? id = (p.function? id).map fun f => f.lower id := by
  unfold Executable.function? Program.function?
  rw [h, getElem?_lower]
  cases p.modules[id.module]? with
  | none => rfl
  | some m =>
    show (m.lower id.module).functions[id.function]? = (m.functions[id.function]?).map _
    unfold Module.lower
    rw [List.getElem?_map, List.getElem?_zipIdx, Option.map_map]
    simp [Function.comp_def]

namespace Program.Builds

variable {p : Program} {x : Executable}

/-- What a program builds to consists of its lowered modules. -/
theorem modules_eq (h : p.Builds x) : x.modules = p.lower :=
  ((Executable.link_eq_ok_iff _ _).mp ((builds_iff p x).mp h).2).1

/-- The function of an executable at a position is the lowered function of the program. -/
theorem function?_eq (h : p.Builds x) (id : FuncId) :
    x.function? id = (p.function? id).map fun f => f.lower id :=
  function?_eq_of_modules_eq h.modules_eq id

/-- The names that calls may use are those of the program's functions. -/
theorem symbols_eq (h : p.Builds x) :
    x.symbols = (p.lower.flatMap CompiledModule.symbols).reverse := by
  obtain ⟨-, htable, -⟩ := (Executable.link_eq_ok_iff _ _).mp ((builds_iff p x).mp h).2
  exact ((Executable.symbolTable_eq_ok_iff _ _).mp htable).1

end Program.Builds

end MutationTester
