import MutationTester.Proofs.Build.Incremental
import MutationTester.Proofs.Build.Soundness
import MutationTester.Proofs.Build.Symbols

/-!
# What the linker accepts

A program builds exactly if it is well formed (`Program.WellFormed`), which is said of the
program alone and not of the checks. What goes wrong with a program that does not build is said
in the same way (`Program.Violates`): the error names a function and something about it that is
against the rules (`Program.violates_of_error`), and it is the kind that is seen in a single
function wherever the program has an error of that kind (`Program.error_of_violation`).
-/

set_option autoImplicit false

namespace MutationTester

/-- Whether a reason is found in a single function, before modules are put together. -/
def BuildError.isLocal : BuildError → Bool
  | .branchOutOfRange .. | .fallsThrough .. => true
  | .unresolvedCall .. | .arityMismatch .. | .duplicateName .. => false

/-! ## Well-formed programs -/

namespace Func

/-- At an index of the body stands a jump to the target, or a branch with it as one of its
arms. -/
def JumpsTo (f : Func) (index : Nat) (target : UInt64) : Prop :=
  f.body[index]? = some (.jump target) ∨
    ∃ cond other, f.body[index]? = some (.branch cond target other) ∨
      f.body[index]? = some (.branch cond other target)

/-- The body is not empty and ends in an instruction that control cannot pass. -/
def Closed (f : Func) : Prop := ∃ last, f.body.getLast? = some last ∧ last.isTerminator = true

/-- The targets of an instruction are where it jumps to. -/
theorem jumpsTo_iff (f : Func) (index : Nat) (target : UInt64) :
    f.JumpsTo index target ↔ ∃ i, f.body[index]? = some i ∧ target ∈ i.targets := by
  unfold JumpsTo
  constructor
  · rintro (h | ⟨cond, other, h | h⟩)
    · exact ⟨_, h, by simp [Instruction.targets]⟩
    · exact ⟨_, h, by simp [Instruction.targets]⟩
    · exact ⟨_, h, by simp [Instruction.targets]⟩
  · rintro ⟨i, hi, htarget⟩
    cases i with
    | jump other =>
      obtain rfl := List.mem_singleton.mp htarget
      exact Or.inl hi
    | branch cond thenTo elseTo =>
      obtain rfl | rfl := List.mem_pair.mp htarget
      · exact Or.inr ⟨cond, elseTo, Or.inl hi⟩
      · exact Or.inr ⟨cond, thenTo, Or.inr hi⟩
    | _ => cases htarget

/-- A function has no defect exactly if it jumps nowhere outside its body and is closed. -/
theorem defect?_eq_none_iff_jumpsTo (f : Func) :
    f.defect? = none ↔
      (∀ index target, f.JumpsTo index target → target.toNat < f.body.length) ∧ f.Closed := by
  rw [defect?_eq_none_iff]
  refine and_congr_left fun _ => ?_
  simp only [jumpsTo_iff]
  constructor
  · rintro h index target ⟨i, hi, htarget⟩
    exact h i (List.mem_of_getElem? hi) target htarget
  · intro h i hi target htarget
    obtain ⟨index, hindex⟩ := List.mem_iff_getElem?.mp hi
    exact h index target ⟨i, hindex, htarget⟩

/-- The defect of a function is a jump that leaves its body, or that it is not closed. -/
theorem of_defect?_eq_some (f : Func) {e : BuildError} (h : f.defect? = some e) :
    (∃ index target, f.JumpsTo index target ∧ f.body.length ≤ target.toNat ∧
      e = .branchOutOfRange f.name index target.toNat) ∨
    (¬ f.Closed ∧ e = .fallsThrough f.name) := by
  unfold defect? at h
  cases hjump : f.wildJump? with
  | some e' =>
    rw [hjump, Option.some_or, Option.some.injEq] at h
    subst h
    unfold wildJump? at hjump
    obtain ⟨⟨i, index⟩, hi, hjump⟩ := List.exists_of_findSome?_eq_some hjump
    obtain ⟨target, htarget, rfl⟩ := Option.map_eq_some_iff.mp hjump
    have hlength := List.find?_some htarget
    have htarget := List.mem_of_find?_eq_some htarget
    refine Or.inl ⟨index, target, ?_, of_decide_eq_true hlength, rfl⟩
    exact (f.jumpsTo_iff index target).mpr ⟨i, List.mem_zipIdx_iff_getElem?.mp hi, htarget⟩
  | none =>
    rw [hjump, Option.none_or] at h
    split at h
    · cases h
    · next hopen =>
      refine Or.inr ⟨?_, (Option.some.inj h).symm⟩
      intro hclosed
      exact hopen ((Option.any_eq_true _ _).mpr hclosed)

end Func

namespace Program

/-- The programs that make sense: control stays inside every body and does not leave it at its
end, names stand for one function each, and calls reach functions that take what they pass. -/
structure WellFormed (p : Program) : Prop where
  targets_lt : ∀ id f, p.function? id = some f →
    ∀ index target, f.JumpsTo index target → target.toNat < f.body.length
  closed : ∀ id f, p.function? id = some f → f.Closed
  names_unique : p.NamesUnique
  calls_fit : ∀ id f, p.function? id = some f →
    ∀ dst callee args, .call dst callee args ∈ f.body →
      ∃ id' g, p.function? id' = some g ∧ g.name = callee ∧ g.params.toNat = args.length

/-- The program has what an error reports. -/
inductive Violates (p : Program) : BuildError → Prop
  /-- A function of that name has that jump, which leads out of its body. -/
  | branchOutOfRange (id : FuncId) (f : Func) (index : Nat) (target : UInt64)
      (hf : p.function? id = some f) (hjump : f.JumpsTo index target)
      (hlength : f.body.length ≤ target.toNat) :
      Violates p (.branchOutOfRange f.name index target.toNat)
  /-- A function of that name is empty, or control passes its last instruction. -/
  | fallsThrough (id : FuncId) (f : Func) (hf : p.function? id = some f) (hopen : ¬ f.Closed) :
      Violates p (.fallsThrough f.name)
  /-- A function of the one name makes a call by the other, and no function has that. -/
  | unresolvedCall (id : FuncId) (f : Func) (dst : Option Register) (callee : String)
      (args : List Register) (hf : p.function? id = some f)
      (hcall : .call dst callee args ∈ f.body)
      (hnone : ∀ id' g, p.function? id' = some g → g.name ≠ callee) :
      Violates p (.unresolvedCall f.name callee)
  /-- A function of the one name calls one of the other, which takes another number of
  arguments than the call passes. -/
  | arityMismatch (id id' : FuncId) (f g : Func) (dst : Option Register) (args : List Register)
      (hf : p.function? id = some f) (hcall : .call dst g.name args ∈ f.body)
      (hg : p.function? id' = some g) (hparams : g.params.toNat ≠ args.length) :
      Violates p (.arityMismatch f.name g.name g.params.toNat args.length)
  /-- Two functions have that name, and the modules that they are in have those. -/
  | duplicateName (id id' : FuncId) (f g : Func) (m n : Module) (hne : id ≠ id')
      (hf : p.function? id = some f) (hg : p.function? id' = some g) (hname : f.name = g.name)
      (hm : p.modules[id.module]? = some m) (hn : p.modules[id'.module]? = some n) :
      Violates p (.duplicateName f.name m.name n.name)

variable {p : Program}

/-- A program with what an error reports is not well formed. -/
theorem Violates.not_wellFormed {e : BuildError} (h : p.Violates e) : ¬ p.WellFormed := by
  intro hwell
  cases h with
  | branchOutOfRange id f index target hf hjump hlength =>
    exact absurd (hwell.targets_lt id f hf index target hjump) (Nat.not_lt.mpr hlength)
  | fallsThrough id f hf hopen => exact hopen (hwell.closed id f hf)
  | unresolvedCall id f dst callee args hf hcall hnone =>
    obtain ⟨id', g, hg, hname, -⟩ := hwell.calls_fit id f hf dst callee args hcall
    exact hnone id' g hg hname
  | arityMismatch id id' f g dst args hf hcall hg hparams =>
    obtain ⟨id'', g', hg', hname, hfit⟩ := hwell.calls_fit id f hf dst g.name args hcall
    -- the name stands for one function, so it is the one that takes another number
    obtain rfl := hwell.names_unique id'' id' g' g hg' hg hname
    rw [hg, Option.some.injEq] at hg'
    exact hparams (hg' ▸ hfit)
  | duplicateName id id' f g m n hne hf hg hname hm hn =>
    exact hne (hwell.names_unique id id' f g hf hg hname)

/-- A program with what a local error reports has a function with a defect. -/
theorem Violates.defect?_ne_none {e : BuildError} (h : p.Violates e) (hlocal : e.isLocal = true) :
    p.defect? ≠ none := by
  rw [ne_eq, p.defect?_eq_none_iff]
  intro hnone
  cases h with
  | branchOutOfRange id f index target hf hjump hlength =>
    have hlt := (f.defect?_eq_none_iff_jumpsTo.mp (hnone id f hf)).1 index target hjump
    exact absurd hlt (Nat.not_lt.mpr hlength)
  | fallsThrough id f hf hopen =>
    exact hopen (f.defect?_eq_none_iff_jumpsTo.mp (hnone id f hf)).2
  | unresolvedCall => cases hlocal
  | arityMismatch => cases hlocal
  | duplicateName => cases hlocal

/-! ## Errors of compiling -/

/-- The defect of a program is local, and the program has it. -/
theorem violates_of_defect? {e : BuildError} (h : p.defect? = some e) :
    p.Violates e ∧ e.isLocal = true := by
  obtain ⟨m, hm, hdefect⟩ := List.exists_of_findSome?_eq_some h
  obtain ⟨f, hf, hdefect⟩ := List.exists_of_findSome?_eq_some hdefect
  obtain ⟨k, hk⟩ := List.mem_iff_getElem?.mp hm
  obtain ⟨j, hj⟩ := List.mem_iff_getElem?.mp hf
  have hfunction : p.function? ⟨k, j⟩ = some f :=
    (p.function?_eq_some_iff ⟨k, j⟩ f).mpr ⟨m, hk, hj⟩
  obtain ⟨index, target, hjump, hlength, rfl⟩ | ⟨hopen, rfl⟩ := f.of_defect?_eq_some hdefect
  · exact ⟨.branchOutOfRange ⟨k, j⟩ f index target hfunction hjump hlength, rfl⟩
  · exact ⟨.fallsThrough ⟨k, j⟩ f hfunction hopen, rfl⟩

end Program

/-! ## Errors of the symbol table -/

/-- The functions of a module, each with the module. -/
def CompiledModule.declarations (m : CompiledModule) : List (CompiledModule × CompiledFunc) :=
  m.functions.map fun f => (m, f)

namespace Executable

/-- Going through the functions of some modules is going through modules and functions. -/
theorem foldlM_declarations (all modules : List CompiledModule) (table : SymbolTable) :
    modules.foldlM (fun table m => m.functions.foldlM (declare all m) table) table =
      (modules.flatMap CompiledModule.declarations).foldlM
        (fun table entry => declare all entry.1 table entry.2) table := by
  induction modules generalizing table with
  | nil => rfl
  | cons m modules ih =>
    rw [List.foldlM_cons, List.flatMap_cons, List.foldlM_append]
    unfold CompiledModule.declarations at ih ⊢
    rw [List.foldlM_map]
    exact bind_congr ih

/-- Declaring functions fails at one whose name is in the table already or was declared before. -/
theorem exists_of_foldlM_declare_eq_error {all : List CompiledModule}
    {entries : List (CompiledModule × CompiledFunc)} {table : SymbolTable} {e : BuildError}
    (h : entries.foldlM (fun table entry => declare all entry.1 table entry.2) table = .error e) :
    ∃ before m f after earlier, entries = before ++ (m, f) :: after ∧
      ((f.name, earlier) ∈ table ∨
        ∃ entry ∈ before, entry.2.name = f.name ∧ entry.2.id = earlier) ∧
      e = .duplicateName f.name ((all[earlier.module]?.map CompiledModule.name).getD "")
        m.name := by
  induction entries generalizing table with
  | nil => cases h
  | cons entry entries ih =>
    obtain ⟨m, f⟩ := entry
    rw [List.foldlM_cons] at h
    unfold declare at h
    dsimp only at h
    cases hlookup : table.lookup f.name with
    | some earlier =>
      rw [hlookup] at h
      cases h
      obtain ⟨front, back, rfl, -⟩ := List.lookup_eq_some_iff.mp hlookup
      exact ⟨[], m, f, entries, earlier, rfl, Or.inl (by simp), rfl⟩
    | none =>
      rw [hlookup] at h
      obtain ⟨before, n, g, after, earlier, rfl, hearlier, rfl⟩ := ih h
      refine ⟨(m, f) :: before, n, g, after, earlier, rfl, ?_, rfl⟩
      obtain hmem | ⟨entry, hentry, hname, hid⟩ := hearlier
      · rcases List.mem_cons.mp hmem with heq | hmem
        · obtain ⟨hname, hid⟩ := Prod.mk.inj heq
          exact Or.inr ⟨(m, f), List.mem_cons_self, hname.symm, hid.symm⟩
        · exact Or.inl hmem
      · exact Or.inr ⟨entry, List.mem_cons_of_mem _ hentry, hname, hid⟩

end Executable

namespace Program

variable {p : Program}

/-- The declared functions are the lowered functions of the program in their modules. -/
theorem exists_of_mem_declarations {m : CompiledModule} {g : CompiledFunc}
    (h : (m, g) ∈ p.lower.flatMap CompiledModule.declarations) :
    ∃ n f, p.modules[g.id.module]? = some n ∧ p.function? g.id = some f ∧ m.name = n.name ∧
      g = f.lower g.id := by
  obtain ⟨m', hm, hentry⟩ := List.mem_flatMap.mp h
  obtain ⟨g', hg, heq⟩ := List.mem_map.mp hentry
  obtain ⟨rfl, rfl⟩ := Prod.mk.inj heq
  obtain ⟨k, hk⟩ := List.mem_iff_getElem?.mp hm
  obtain ⟨j, hj⟩ := List.mem_iff_getElem?.mp hg
  rw [getElem?_lower] at hk
  obtain ⟨n, hn, rfl⟩ := Option.map_eq_some_iff.mp hk
  unfold Module.lower at hj
  simp only [List.getElem?_map, List.getElem?_zipIdx, Option.map_map, Nat.zero_add] at hj
  obtain ⟨f, hf, rfl⟩ := Option.map_eq_some_iff.mp hj
  refine ⟨n, f, hn, ?_, rfl, rfl⟩
  exact (p.function?_eq_some_iff _ f).mpr ⟨n, hn, hf⟩

/-- No position is declared twice. -/
theorem nodup_ids_declarations :
    ((p.lower.flatMap CompiledModule.declarations).map fun entry => entry.2.id).Nodup := by
  have hids : (p.lower.flatMap CompiledModule.declarations).map (fun entry => entry.2.id) =
      p.functions.map Prod.fst := by
    have hsymbols := congrArg (List.map Prod.snd) p.flatMap_symbols_lower
    unfold symbols at hsymbols
    simpa only [CompiledModule.symbols, CompiledModule.declarations, List.map_flatMap,
      List.map_map, Function.comp_def] using hsymbols
  rw [hids]
  exact p.nodup_map_fst_functions

/-- Where the lowered modules have no symbol table, two functions have the name that is
reported, in the modules that are reported. -/
theorem violates_of_symbolTable {e : BuildError}
    (h : Executable.symbolTable p.lower = .error e) : p.Violates e := by
  unfold Executable.symbolTable at h
  rw [Executable.foldlM_declarations] at h
  obtain ⟨before, m, g, after, earlier, hentries, hearlier, rfl⟩ :=
    Executable.exists_of_foldlM_declare_eq_error h
  obtain hnil | ⟨⟨m', g'⟩, hbefore, hname, rfl⟩ := hearlier
  · cases hnil
  have hnodup := p.nodup_ids_declarations
  have hmem' : (m', g') ∈ p.lower.flatMap CompiledModule.declarations := by
    rw [hentries]
    exact List.mem_append_left _ hbefore
  have hmem : (m, g) ∈ p.lower.flatMap CompiledModule.declarations := by
    rw [hentries]
    simp
  have hne : g'.id ≠ g.id := by
    rw [hentries, List.map_append, List.nodup_append] at hnodup
    exact hnodup.2.2 g'.id (List.mem_map_of_mem hbefore) g.id (by simp)
  obtain ⟨n', f', hn', hf', -, hg'⟩ := exists_of_mem_declarations hmem'
  obtain ⟨n, f, hn, hf, hmodule, hg⟩ := exists_of_mem_declarations hmem
  have hfirst : (p.lower[g'.id.module]?.map CompiledModule.name).getD "" = n'.name := by
    rw [getElem?_lower, hn']
    rfl
  have hname' : f'.name = g.name := by
    rw [← hname, hg']
    rfl
  have hname : g.name = f.name := by
    rw [hg]
    rfl
  rw [hfirst, hmodule, ← hname']
  exact .duplicateName g'.id g.id f' f n' n hne hf' hf (hname'.trans hname) hn' hn

end Program

/-! ## Errors of calls -/

/-- A call is bad if no function has the name that it calls, or the function that has it takes
another number of arguments. -/
theorem Executable.of_callDefect?_eq_some {x : Executable} {f : CompiledFunc} {i : Instruction}
    {e : BuildError} (h : x.callDefect? f i = some e) :
    ∃ dst callee args, i = .call dst callee args ∧
      ((x.resolve? callee = none ∧ e = .unresolvedCall f.name callee) ∨
        ∃ g, x.resolve? callee = some g ∧ g.params ≠ args.length ∧
          e = .arityMismatch f.name callee g.params args.length) := by
  cases i with
  | call dst callee args =>
    refine ⟨dst, callee, args, rfl, ?_⟩
    unfold callDefect? at h
    dsimp only at h
    cases hcallee : x.resolve? callee with
    | none =>
      rw [hcallee] at h
      exact Or.inl ⟨rfl, (Option.some.inj h).symm⟩
    | some g =>
      rw [hcallee] at h
      dsimp only at h
      split at h
      · cases h
      · next hparams => exact Or.inr ⟨g, rfl, hparams, (Option.some.inj h).symm⟩
  | _ => cases h

namespace Program

variable {p : Program}

/-- Where the modules have a symbol table, a call that is reported is bad. -/
theorem violates_of_callDefect? {x : Executable} {e : BuildError} (hmodules : x.modules = p.lower)
    (htable : Executable.symbolTable p.lower = .ok x.symbols) (h : x.defect? = some e) :
    p.Violates e := by
  obtain ⟨g, hg, hdefect⟩ := List.exists_of_findSome?_eq_some h
  obtain ⟨i, hi, hdefect⟩ := List.exists_of_findSome?_eq_some hdefect
  obtain ⟨id, hid⟩ := (x.mem_functions_iff g).mp hg
  rw [function?_eq_of_modules_eq hmodules] at hid
  obtain ⟨f, hf, rfl⟩ := Option.map_eq_some_iff.mp hid
  obtain ⟨dst, callee, args, rfl, ⟨hnone, rfl⟩ | ⟨target, hsome, hparams, rfl⟩⟩ :=
    Executable.of_callDefect?_eq_some hdefect
  · refine .unresolvedCall id f dst callee args hf hi ?_
    intro id' g hg hname
    have hreached := (resolve?_eq_some_iff hmodules htable callee _).mpr ⟨id', g, hg, hname, rfl⟩
    rw [hnone] at hreached
    cases hreached
  · obtain ⟨id', g, hg, rfl, rfl⟩ := (resolve?_eq_some_iff hmodules htable callee _).mp hsome
    exact .arityMismatch id id' f g dst args hf hi hg hparams

/-! ## Building -/

/-- Building fails with the defect of the program, or where it has none in linking. -/
theorem error_iff (e : BuildError) :
    p.compile >>= CompiledProgram.executable = .error e ↔
      p.defect? = some e ∨ p.defect? = none ∧ Executable.link p.lower = .error e := by
  rw [compile_eq]
  cases p.defect? with
  | some e' => simp [bind, Except.bind]
  | none => simp [bind, Except.bind, CompiledProgram.executable]

/-- Linking lowered modules fails for a reason that the program has. -/
theorem violates_of_link {e : BuildError} (h : Executable.link p.lower = .error e) :
    p.Violates e := by
  obtain htable | ⟨table, htable, hdefect⟩ := Executable.of_link_eq_error h
  · exact violates_of_symbolTable htable
  · exact violates_of_callDefect? rfl htable hdefect

/-- Building fails for a reason that the program has. -/
theorem violates_of_error {e : BuildError}
    (h : p.compile >>= CompiledProgram.executable = .error e) : p.Violates e := by
  obtain hdefect | ⟨-, hlink⟩ := (error_iff e).mp h
  · exact (violates_of_defect? hdefect).1
  · exact violates_of_link hlink

/-- Where a program has what some local error reports, building fails with a local error. -/
theorem error_of_violation {e e' : BuildError} (hviolates : p.Violates e')
    (hlocal : e'.isLocal = true) (h : p.compile >>= CompiledProgram.executable = .error e) :
    e.isLocal = true := by
  obtain hdefect | ⟨hnone, -⟩ := (error_iff e).mp h
  · exact (violates_of_defect? hdefect).2
  · exact absurd hnone (hviolates.defect?_ne_none hlocal)

/-- What builds is well formed. -/
theorem Builds.wellFormed {x : Executable} (h : p.Builds x) : p.WellFormed := by
  obtain ⟨hdefect, hlink⟩ := (builds_iff p x).mp h
  obtain ⟨hmodules, htable, hcalls⟩ := (Executable.link_eq_ok_iff _ x).mp hlink
  rw [p.defect?_eq_none_iff] at hdefect
  refine ⟨?_, ?_, ((p.symbolTable_lower_eq_ok_iff x.symbols).mp htable).1, ?_⟩
  · intro id f hf
    exact (f.defect?_eq_none_iff_jumpsTo.mp (hdefect id f hf)).1
  · intro id f hf
    exact (f.defect?_eq_none_iff_jumpsTo.mp (hdefect id f hf)).2
  · intro id f hf dst callee args hcall
    have hlowered : x.function? id = some (f.lower id) := by rw [h.function?_eq, hf]; rfl
    have hgood := x.defect?_eq_none_iff.mp hcalls id _ hlowered _ hcall
    obtain ⟨target, htarget, hparams⟩ := Executable.exists_of_callDefect?_eq_none hgood
    obtain ⟨id', g, hg, hname, rfl⟩ := (resolve?_eq_some_iff hmodules htable callee _).mp htarget
    exact ⟨id', g, hg, hname, hparams⟩

/-- The linker accepts exactly the well-formed programs. In what it makes, every name reaches
the compiled form of the function that a scan of the program for the name finds, if it finds
one. Where it refuses a program it names something that the program really has, and as long as
some function has a defect of its own it names such a defect. -/
theorem builds_iff_wellFormed (p : Program) :
    ((∃ x, p.Builds x) ↔ p.WellFormed) ∧
    (∀ x, p.Builds x → ∀ name, x.resolve? name =
      p.findFunction? name >>= fun id => (p.function? id).map fun f => f.lower id) ∧
    ∀ e, p.compile >>= CompiledProgram.executable = .error e →
      p.Violates e ∧ ((∃ e', p.Violates e' ∧ e'.isLocal = true) → e.isLocal = true) := by
  refine ⟨⟨?_, ?_⟩, ?_, ?_⟩
  · rintro ⟨x, hx⟩
    exact hx.wellFormed
  · intro hwell
    cases hresult : p.compile >>= CompiledProgram.executable with
    | ok x => exact ⟨x, hresult⟩
    | error e => exact absurd hwell (violates_of_error hresult).not_wellFormed
  · intro x hx name
    obtain ⟨hmodules, htable, -⟩ := (Executable.link_eq_ok_iff _ x).mp ((builds_iff p x).mp hx).2
    exact resolve?_eq_findFunction? hmodules htable name
  · intro e he
    refine ⟨violates_of_error he, ?_⟩
    rintro ⟨e', hviolates, hlocal⟩
    exact error_of_violation hviolates hlocal he

/-- A program whose first module makes a call to no function and whose second module has a
function that may run past its end. -/
def openAfterBadCall : Program where
  modules :=
    [⟨"early", [⟨"first", 0, [.call none "missing" [], .ret none]⟩]⟩,
      ⟨"late", [⟨"second", 0, [.nop]⟩]⟩]

/-- Of two things that are wrong the one in the later module is reported, because it is found in
a single function. A program whose only call names a function of it builds, and the name reaches
that function. -/
theorem open_body_reported_before_bad_call :
    (openAfterBadCall.Violates (.unresolvedCall "first" "missing") ∧
      openAfterBadCall.compile >>= CompiledProgram.executable = .error (.fallsThrough "second") ∧
      ¬ openAfterBadCall.WellFormed) ∧
    (CompiledProgram.callingProgram "helper").WellFormed ∧
    ∃ x, (CompiledProgram.callingProgram "helper").Builds x ∧
      (x.resolve? "helper").map CompiledFunc.id = some ⟨0, 0⟩ := by
  have hbad : openAfterBadCall.Violates (.unresolvedCall "first" "missing") := by
    refine .unresolvedCall ⟨0, 0⟩ ⟨"first", 0, [.call none "missing" [], .ret none]⟩ none "missing"
      [] rfl (by simp) ?_
    intro id g hg
    have hnames : ∀ entry ∈ openAfterBadCall.functions, entry.2.name ≠ "missing" := by decide
    exact hnames (id, g) ((openAfterBadCall.mem_functions_iff id g).mpr hg)
  have hfails : openAfterBadCall.compile >>= CompiledProgram.executable =
    .error (.fallsThrough "second") := rfl
  have hviolates := ((builds_iff_wellFormed openAfterBadCall).2.2 _ hfails).1
  obtain ⟨haccepts, hresolve, -⟩ := builds_iff_wellFormed (CompiledProgram.callingProgram "helper")
  have hbuilds : ∃ x, (CompiledProgram.callingProgram "helper").Builds x := ⟨_, rfl⟩
  refine ⟨⟨hbad, hfails, hviolates.not_wellFormed⟩, haccepts.mp hbuilds, ?_⟩
  obtain ⟨x, hx⟩ := hbuilds
  exact ⟨x, hx, by rw [hresolve x hx "helper"]; rfl⟩

end Program

end MutationTester
