import MutationTester.Proofs.Build.Linking

/-!
# Building a variant from the compiled modules of another program

A variant that differs from a compiled program in one module needs only that module to be
compiled anew. The defect of the variant is then the defect of that module
(`Program.defect?_eq_of_differs`) and its lowered modules are the compiled ones with one put in
the place of another (`Program.lower_eq_set_of_differs`), so the short way to an executable and
the long way are one (`CompiledProgram.executableFor_lower_eq`).
-/

set_option autoImplicit false

namespace MutationTester

/-- Two programs with the same number of modules that differ at most in the module at `k`. -/
structure Program.DiffersAt (p q : Program) (k : Nat) : Prop where
  length_eq : q.modules.length = p.modules.length
  modules_eq : ∀ i, i ≠ k → q.modules[i]? = p.modules[i]?

/-- If at most one element of a list gives a result, the first result is that of this element. -/
theorem findSome?_eq_of_forall_ne {α β : Type} (f : α → Option β) (l : List α) (k : Nat) (a : α)
    (hk : l[k]? = some a) (hne : ∀ i b, i ≠ k → l[i]? = some b → f b = none) :
    l.findSome? f = f a := by
  induction l generalizing k with
  | nil => cases hk
  | cons head tail ih =>
    rw [List.findSome?_cons]
    cases k with
    | zero =>
      obtain rfl : head = a := by simpa using hk
      have htail : tail.findSome? f = none := by
        rw [List.findSome?_eq_none_iff]
        intro b hb
        obtain ⟨i, hi⟩ := List.mem_iff_getElem?.mp hb
        exact hne (i + 1) b (by omega) (by simpa using hi)
      rw [htail]
      cases f head <;> rfl
    | succ k =>
      have hhead : f head = none := hne 0 head (by omega) rfl
      rw [hhead]
      apply ih k (by simpa using hk)
      intro i b hi hb
      exact hne (i + 1) b (by omega) (by simpa using hb)

namespace Program

variable {p q : Program} {k : Nat}

/-- Where one program has a module, the other has one too. -/
theorem DiffersAt.exists_module (h : p.DiffersAt q k) (hk : k < p.modules.length) :
    ∃ m, q.modules[k]? = some m :=
  ⟨q.modules.get ⟨k, h.length_eq ▸ hk⟩, List.getElem?_eq_getElem _⟩

/-- An exchange of an instruction changes at most the module of its site. -/
theorem differsAt_setInstruction (p : Program) (s : Site) (i : Instruction) :
    p.DiffersAt (p.setInstruction s i) s.module where
  length_eq := length_modules_setInstruction p s i
  modules_eq _ hk := modules_setInstruction_of_ne p s i hk

/-- If a program has no defect, a variant has that of the module in which they differ. -/
theorem defect?_eq_of_differs (h : p.DiffersAt q k) (hp : p.defect? = none) {m : Module}
    (hm : q.modules[k]? = some m) : q.defect? = m.defect? := by
  unfold defect? at hp ⊢
  rw [List.findSome?_eq_none_iff] at hp
  apply findSome?_eq_of_forall_ne Module.defect? q.modules k m hm
  intro i n hi hn
  rw [h.modules_eq i hi] at hn
  exact hp n (List.mem_of_getElem? hn)

/-- The lowered modules of a variant are those of the program with one of them replaced. -/
theorem lower_eq_set_of_differs (h : p.DiffersAt q k) {m : Module} (hm : q.modules[k]? = some m) :
    q.lower = p.lower.set k (m.lower k) := by
  apply List.ext_getElem?
  intro i
  rw [getElem?_lower]
  by_cases hi : k = i
  · subst hi
    have hp : p.lower[k]? = p.modules[k]?.map fun n => n.lower k := getElem?_lower p k
    have hk : k < p.modules.length := by
      rw [← h.length_eq]
      exact (List.getElem?_eq_some_iff.mp hm).1
    rw [List.getElem?_set_self', hp, hm, List.getElem?_eq_getElem hk]
    rfl
  · rw [List.getElem?_set_ne hi, getElem?_lower, h.modules_eq i (Ne.symm hi)]

end Program

namespace CompiledProgram

/-- The modules of a program leave a place for each module of a variant with as many modules. -/
theorem hasPlaceFor_lower (p q : Program) (k : Nat) (hk : k < p.modules.length) :
    (⟨p.lower⟩ : CompiledProgram).hasPlaceFor q k = true := by
  have hlength : p.lower.length = p.modules.length := by simp [Program.lower]
  unfold hasPlaceFor
  simp [hlength, hk]

/-- A variant that is built from the lowered modules of a program without defect is built as if
from nothing. -/
theorem executableFor_lower_eq {p q : Program} {k : Nat} (hp : p.defect? = none)
    (hk : k < p.modules.length) (h : p.DiffersAt q k) :
    (⟨p.lower⟩ : CompiledProgram).executableFor q k = q.compile >>= executable := by
  obtain ⟨m, hm⟩ := h.exists_module hk
  unfold executableFor
  rw [hm, Program.compile_eq, Program.defect?_eq_of_differs h hp hm,
    Program.lower_eq_set_of_differs h hm]
  show (m.compile k >>= fun compiled => Executable.link (p.lower.set k compiled)) = _
  unfold Module.compile
  cases m.defect? <;> rfl

/-- Compiling the one module in which a variant differs and linking it with the compiled modules
of the program gives what compiling all modules of the variant and linking them gives: the same
error, or the same executable. The module that is compiled has a place to take. -/
theorem incremental_build_eq_full_build (p q : Program) (compiled : CompiledProgram) (k : Nat)
    (hp : p.compile = .ok compiled) (hk : k < p.modules.length) (hdiffers : p.DiffersAt q k) :
    compiled.hasPlaceFor q k = true ∧
      compiled.executableFor q k = q.compile >>= executable := by
  obtain ⟨hdefect, rfl⟩ := (Program.compile_eq_ok_iff p compiled).mp hp
  exact ⟨hasPlaceFor_lower p q k hk, executableFor_lower_eq hdefect hk hdiffers⟩

/-- A program whose second module calls `helper`; its first module declares one name. -/
def callingProgram (declared : String) : Program where
  modules :=
    [⟨"lib", [⟨declared, 0, [.ret none]⟩]⟩,
      ⟨"app", [⟨"main", 0, [.call none "helper" [], .ret none]⟩]⟩]

/-- The variant breaks a call in a module that is not compiled anew; it is noticed all the same,
with the error that a full build gives. -/
theorem incremental_build_renamed_callee :
    (callingProgram "helper").compile = .ok ⟨(callingProgram "helper").lower⟩ ∧
      (callingProgram "helper").DiffersAt (callingProgram "renamed") 0 ∧
      (⟨(callingProgram "helper").lower⟩ : CompiledProgram).executableFor
        (callingProgram "renamed") 0 = .error (.unresolvedCall "main" "helper") := by
  have hcompile : (callingProgram "helper").compile = .ok ⟨(callingProgram "helper").lower⟩ := rfl
  have hdiffers : (callingProgram "helper").DiffersAt (callingProgram "renamed") 0 := by
    refine ⟨rfl, ?_⟩
    rintro (_ | i) hi
    · exact absurd rfl hi
    · rfl
  have h := incremental_build_eq_full_build _ _ _ 0 hcompile (by decide) hdiffers
  exact ⟨hcompile, hdiffers, h.2⟩

end CompiledProgram

end MutationTester
