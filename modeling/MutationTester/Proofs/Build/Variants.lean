import MutationTester.Proofs.Build.Linking

/-!
# Building mutants

A mutation keeps everything that compiling and linking look at: the replacement jumps nowhere,
calls nothing, and never stands at the end of a body, because what it replaces lets control
pass. So a mutant of a program that builds builds as well, and what it builds to differs from
what the program builds to in the code of one instruction only (`Program.Builds.exists_of_mutate`).
-/

set_option autoImplicit false

namespace MutationTester

/-- Two compiled functions whose code differs at most at one site. Their frames may have
different sizes, as the instruction there may be the only one to use a register, but the
parameters have room in both. -/
structure CompiledFunc.DiffersAt (s : Site) (f g : CompiledFunc) : Prop where
  id_eq : g.id = f.id
  name_eq : g.name = f.name
  params_eq : g.params = f.params
  size_eq : g.code.size = f.code.size
  code_eq : ∀ n, f.id.site n ≠ s → g.code[n]? = f.code[n]?
  params_le : f.params ≤ f.frameSize
  params_le' : g.params ≤ g.frameSize

/-- Two executables that differ at most at one site. -/
structure Executable.DiffersAt (s : Site) (x y : Executable) : Prop where
  symbols_eq : y.symbols = x.symbols
  function?_rel : ∀ id, Option.Rel (CompiledFunc.DiffersAt s) (x.function? id) (y.function? id)

/-! ## What operators replace, and by what -/

namespace Operator

variable {op : Operator} {before after : Instruction}

/-- What an operator replaces lets control pass. -/
theorem isTerminator_of_replacement? (h : op.replacement? before = some after) :
    before.isTerminator = false := by
  unfold replacement? at h
  split at h <;> first | rfl | cases h

/-- A replacement has no jump targets. -/
theorem targets_of_replacement? (h : op.replacement? before = some after) :
    after.targets = [] := by
  unfold replacement? at h
  split at h <;> cases h <;> rfl

/-- A replacement is no bad call, as it is no call. -/
theorem callDefect?_of_replacement? (h : op.replacement? before = some after) (x : Executable)
    (f : CompiledFunc) : x.callDefect? f after = none := by
  unfold replacement? at h
  split at h <;> cases h <;> rfl

end Operator

/-! ## Defects of functions -/

namespace Func

/-- A body has no defect exactly if all its jumps stay inside and its last instruction lets
control not pass. -/
theorem defect?_eq_none_iff (f : Func) :
    f.defect? = none ↔
      (∀ i ∈ f.body, ∀ target ∈ i.targets, target.toNat < f.body.length) ∧
        ∃ last, f.body.getLast? = some last ∧ last.isTerminator = true := by
  have hjumps : f.wildJump? = none ↔
      ∀ i ∈ f.body, ∀ target ∈ i.targets, target.toNat < f.body.length := by
    unfold wildJump?
    simp only [List.findSome?_eq_none_iff, Option.map_eq_none_iff, List.find?_eq_none,
      decide_eq_true_eq, Nat.not_le, Prod.forall]
    constructor
    · intro h i hi
      obtain ⟨n, hn⟩ := List.mem_iff_getElem?.mp hi
      exact h i n (List.mem_zipIdx_iff_getElem?.mpr hn)
    · intro h i n hin
      exact h i (List.mem_of_getElem? (List.mem_zipIdx_iff_getElem?.mp hin))
  have hclosed : f.isClosed = true ↔
      ∃ last, f.body.getLast? = some last ∧ last.isTerminator = true := by
    unfold isClosed
    exact Option.any_eq_true _ _
  unfold defect?
  rw [← hjumps, ← hclosed, Option.or_eq_none_iff]
  cases f.isClosed <;> simp

/-- Replacing an instruction as an operator does leaves a body without defect. -/
theorem defect?_of_replacement? (f : Func) (n : Nat) {op : Operator} {before after : Instruction}
    (hf : f.defect? = none) (hn : f.body[n]? = some before)
    (hop : op.replacement? before = some after) :
    ({ f with body := f.body.set n after } : Func).defect? = none := by
  obtain ⟨hjumps, last, hlast, hterminator⟩ := (defect?_eq_none_iff f).mp hf
  rw [defect?_eq_none_iff]
  constructor
  · intro i hi target htarget
    rw [List.length_set]
    rcases List.mem_or_eq_of_mem_set hi with hi | rfl
    · exact hjumps i hi target htarget
    · rw [Operator.targets_of_replacement? hop] at htarget
      cases htarget
  · refine ⟨last, ?_, hterminator⟩
    rw [List.getLast?_eq_getElem?] at hlast ⊢
    -- the instruction replaced is not the last one, which lets control not pass
    have hne : n ≠ f.body.length - 1 := by
      rintro rfl
      rw [hn, Option.some.injEq] at hlast
      rw [← hlast, Operator.isTerminator_of_replacement? hop] at hterminator
      cases hterminator
    rw [List.length_set, List.getElem?_set_ne hne]
    exact hlast

end Func

/-- A program has no defect exactly if no function of it has one. -/
theorem Program.defect?_eq_none_iff (p : Program) :
    p.defect? = none ↔ ∀ id f, p.function? id = some f → f.defect? = none := by
  unfold Program.defect? Module.defect?
  simp only [List.findSome?_eq_none_iff]
  constructor
  · intro h id f hf
    obtain ⟨m, hm, hf⟩ := (p.function?_eq_some_iff id f).mp hf
    exact h m (List.mem_of_getElem? hm) f (List.mem_of_getElem? hf)
  · intro h m hm f hf
    obtain ⟨k, hk⟩ := List.mem_iff_getElem?.mp hm
    obtain ⟨j, hj⟩ := List.mem_iff_getElem?.mp hf
    exact h ⟨k, j⟩ f ((p.function?_eq_some_iff ⟨k, j⟩ f).mpr ⟨m, hk, hj⟩)

/-! ## Calls -/

namespace Executable

variable {x y : Executable} {s : Site}

/-- A function belongs to an executable exactly if it stands at a position of it. -/
theorem mem_functions_iff (x : Executable) (f : CompiledFunc) :
    f ∈ x.functions ↔ ∃ id, x.function? id = some f := by
  unfold functions function?
  simp only [Option.bind_eq_bind, Option.bind_eq_some_iff]
  rw [List.mem_flatMap]
  constructor
  · rintro ⟨m, hm, hf⟩
    obtain ⟨k, hk⟩ := List.mem_iff_getElem?.mp hm
    obtain ⟨j, hj⟩ := List.mem_iff_getElem?.mp hf
    exact ⟨⟨k, j⟩, m, hk, hj⟩
  · rintro ⟨id, m, hk, hj⟩
    exact ⟨m, List.mem_of_getElem? hk, List.mem_of_getElem? hj⟩

/-- No call of an executable is bad exactly if no instruction of a function of it is. -/
theorem defect?_eq_none_iff (x : Executable) :
    x.defect? = none ↔
      ∀ id f, x.function? id = some f → ∀ i ∈ f.code.toList, x.callDefect? f i = none := by
  unfold defect?
  simp only [List.findSome?_eq_none_iff, mem_functions_iff]
  constructor
  · intro h id f hf
    exact h f ⟨id, hf⟩
  · rintro h f ⟨id, hf⟩
    exact h id f hf

/-- In executables that differ at one site calls reach functions that differ there at most. -/
theorem DiffersAt.resolve?_rel (h : DiffersAt s x y) (name : String) :
    Option.Rel (CompiledFunc.DiffersAt s) (x.resolve? name) (y.resolve? name) := by
  unfold resolve?
  rw [h.symbols_eq]
  cases x.symbols.lookup name with
  | none => exact .none
  | some id => exact h.function?_rel id

/-- In executables that differ at one site the same calls are bad. -/
theorem DiffersAt.callDefect?_eq (h : DiffersAt s x y) {f g : CompiledFunc}
    (hname : g.name = f.name) (i : Instruction) : y.callDefect? g i = x.callDefect? f i := by
  unfold callDefect?
  cases i with
  | call dst callee args =>
    have hrel := h.resolve?_rel callee
    simp only [hname]
    generalize x.resolve? callee = target at hrel ⊢
    generalize y.resolve? callee = target' at hrel ⊢
    cases hrel with
    | none => rfl
    | some hdiffers => simp only [hdiffers.params_eq]
  | _ => rfl

end Executable

/-! ## Mutants -/

namespace Program

variable {p : Program}

/-- An exchange of an instruction does not change which names a program declares. -/
theorem map_symbols_lower_setInstruction (p : Program) (s : Site) (i : Instruction) :
    (p.setInstruction s i).lower.map CompiledModule.symbols =
      p.lower.map CompiledModule.symbols := by
  apply List.ext_getElem?
  intro k
  rw [List.getElem?_map, List.getElem?_map, getElem?_lower, getElem?_lower]
  by_cases hk : k = s.module
  · subst hk
    unfold setInstruction
    rw [List.getElem?_modify_eq]
    cases p.modules[s.module]? with
    | none => rfl
    | some m =>
      simp only [Option.map_eq_map, Option.map_some, Option.some.injEq, CompiledModule.symbols,
        Module.lower, List.map_map]
      apply List.ext_getElem?
      intro j
      simp only [List.getElem?_map, List.getElem?_zipIdx, List.getElem?_modify]
      cases m.functions[j]? with
      | none => rfl
      | some f => by_cases hj : s.function = j <;> simp [hj, Func.lower]
  · rw [modules_setInstruction_of_ne p s i hk]

/-- The parameters of a function have room in its frame. -/
theorem params_le_frameSize_lower (f : Func) (id : FuncId) :
    (f.lower id).params ≤ (f.lower id).frameSize :=
  Nat.le_max_right _ _

/-- The lowered form of a function and of that function with one instruction exchanged. -/
theorem differsAt_lower_set (f : Func) (id : FuncId) (n : Nat) (i : Instruction) :
    CompiledFunc.DiffersAt (id.site n) (f.lower id)
      (({ f with body := f.body.set n i } : Func).lower id) where
  id_eq := rfl
  name_eq := rfl
  params_eq := rfl
  size_eq := by simp [Func.lower]
  code_eq k hk := by
    have hne : n ≠ k := by
      rintro rfl
      exact hk rfl
    simp [Func.lower, List.getElem?_set_ne hne]
  params_le := params_le_frameSize_lower f id
  params_le' := params_le_frameSize_lower _ id

/-- What a program builds to, and the lowered modules of the program with one instruction
exchanged under the same names, differ at the site of the exchange only. -/
theorem Builds.differsAt_setInstruction {x : Executable} (h : p.Builds x) (s : Site)
    (i : Instruction) :
    Executable.DiffersAt s x ⟨(p.setInstruction s i).lower, x.symbols⟩ where
  symbols_eq := rfl
  function?_rel id := by
    rw [h.function?_eq, function?_eq_of_modules_eq rfl, function?_setInstruction]
    cases p.function? id with
    | none => by_cases hid : id = s.funcId <;> simp [hid]
    | some f =>
      by_cases hid : id = s.funcId
      · subst hid
        rw [if_pos rfl]
        exact .some (differsAt_lower_set f s.funcId s.index i)
      · rw [if_neg hid]
        have hfits := params_le_frameSize_lower f id
        exact .some ⟨rfl, rfl, rfl, rfl, fun _ _ => rfl, hfits, hfits⟩

/-- A mutant of a program that builds builds, to an executable that differs from that of the
program at the site of the mutation only. -/
theorem Builds.exists_of_mutate {x : Executable} (h : p.Builds x) {op : Operator} {s : Site}
    {token : Applied} {mutated : Program} (hop : op.mutate p s = .ok (token, mutated)) :
    ∃ y, mutated.Builds y ∧ Executable.DiffersAt s x y := by
  obtain ⟨before, after, hbefore, hafter, -, rfl⟩ := (op.mutate_eq_ok_iff p s _ _).mp hop
  obtain ⟨hdefect, hlink⟩ := (builds_iff p x).mp h
  obtain ⟨-, htable, hcalls⟩ := (Executable.link_eq_ok_iff _ _).mp hlink
  have hdiffers := h.differsAt_setInstruction s after
  refine ⟨⟨(p.setInstruction s after).lower, x.symbols⟩, ?_, hdiffers⟩
  rw [builds_iff, Executable.link_eq_ok_iff]
  refine ⟨?_, rfl, ?_, ?_⟩
  · rw [defect?_eq_none_iff] at hdefect ⊢
    intro id f hf
    rw [function?_setInstruction] at hf
    by_cases hid : id = s.funcId
    · rw [if_pos hid] at hf
      obtain ⟨g, hg, rfl⟩ := Option.map_eq_some_iff.mp hf
      obtain ⟨g', hg', hn⟩ := (p.instruction?_eq_some_iff s before).mp hbefore
      obtain rfl : g = g' := by
        rw [hid, hg', Option.some.injEq] at hg
        exact hg.symm
      exact g.defect?_of_replacement? s.index (hdefect id g hg) hn hafter
    · rw [if_neg hid] at hf
      exact hdefect id f hf
  · rw [Executable.symbolTable_eq_ok_iff] at htable ⊢
    rwa [List.flatMap_def, map_symbols_lower_setInstruction, ← List.flatMap_def]
  · rw [Executable.defect?_eq_none_iff] at hcalls ⊢
    intro id g hg i hi
    rw [function?_eq_of_modules_eq rfl] at hg
    obtain ⟨f', hf', rfl⟩ := Option.map_eq_some_iff.mp hg
    obtain ⟨f, hf, hname, hbody⟩ := p.exists_of_function?_setInstruction s after id f' hf'
    rw [hdiffers.callDefect?_eq (f := f.lower id) hname]
    rcases hbody i (by simpa [Func.lower] using hi) with hi | rfl
    · have hfx : x.function? id = some (f.lower id) := by rw [h.function?_eq, hf]; rfl
      exact hcalls id _ hfx i (by simpa [Func.lower] using hi)
    · exact Operator.callDefect?_of_replacement? hafter x _

end Program

end MutationTester
