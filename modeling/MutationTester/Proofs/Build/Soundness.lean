import MutationTester.Proofs.Build.Variants

/-!
# What linked code can rely on

Compiling and linking check all that the machine takes for granted. A function of a program that
builds has room in its frame for every register that its instructions name, jumps to places of its
own code only, does not end in an instruction that control passes, and calls functions that are
there with as many arguments as they take (`Program.Builds.sound`).
-/

set_option autoImplicit false

namespace MutationTester

/-- A function that cannot make a machine that runs the executable go wrong. -/
structure CompiledFunc.Sound (x : Executable) (f : CompiledFunc) : Prop where
  registers_lt : ∀ i ∈ f.code, ∀ r ∈ i.registers, r.toNat < f.frameSize
  targets_lt : ∀ i ∈ f.code, ∀ target ∈ i.targets, target.toNat < f.code.size
  size_pos : 0 < f.code.size
  next_lt : ∀ n i, f.code[n]? = some i → i.isTerminator = false → n + 1 < f.code.size
  calls : ∀ dst callee args, .call dst callee args ∈ f.code →
    ∃ g, x.resolve? callee = some g ∧ g.params = args.length
  params_le : f.params ≤ f.frameSize

/-- An executable all of whose functions are sound. -/
def Executable.Sound (x : Executable) : Prop := ∀ id f, x.function? id = some f → f.Sound x

/-! ## Frames -/

/-- The greater of two registers is below a bound exactly if both are. -/
instance : Std.LawfulOrderSup Register where
  max_le_iff a b c := by
    show (if a ≤ b then b else a) ≤ c ↔ a ≤ c ∧ b ≤ c
    split
    next hab => exact ⟨fun h => ⟨UInt32.le_trans hab h, h⟩, And.right⟩
    next hab =>
      have hba : b ≤ a := UInt32.le_of_lt (UInt32.not_le.mp hab)
      exact ⟨fun h => ⟨h, UInt32.le_trans hba h⟩, And.left⟩

/-- The highest of some registers is not below any of them. -/
theorem exists_max?_of_mem {registers : List Register} {r : Register} (h : r ∈ registers) :
    ∃ m, registers.max? = some m ∧ r.toNat ≤ m.toNat := by
  cases hmax : registers.max? with
  | none =>
    rw [List.max?_eq_none_iff.mp hmax] at h
    cases h
  | some m =>
    have hle : r ≤ m := (List.max?_le_iff hmax).mp (UInt32.le_refl m) r h
    exact ⟨m, rfl, UInt32.le_iff_toNat_le.mp hle⟩

/-- The frame of a function has room for every register that the body names. -/
theorem Func.register_lt_frameSize (f : Func) {i : Instruction} (hi : i ∈ f.body) {r : Register}
    (hr : r ∈ i.registers) : r.toNat < f.frameSize := by
  obtain ⟨highest, hhighest, hr⟩ := exists_max?_of_mem hr
  have hmem : highest ∈ f.body.filterMap Instruction.maxRegister? :=
    List.mem_filterMap.mpr ⟨i, hi, hhighest⟩
  obtain ⟨used, hused, hle⟩ := exists_max?_of_mem hmem
  have hsize : used.toNat + 1 ≤ f.frameSize := by
    unfold frameSize usedRegisters
    rw [hused]
    exact Nat.le_max_left _ _
  omega

/-! ## Functions of a program that builds -/

/-- In a body without defect only the last instruction is one that control does not pass. -/
theorem Func.next_lt_of_defect? (f : Func) (hf : f.defect? = none) {n : Nat} {i : Instruction}
    (hn : f.body[n]? = some i) (hi : i.isTerminator = false) : n + 1 < f.body.length := by
  obtain ⟨-, last, hlast, hterminator⟩ := f.defect?_eq_none_iff.mp hf
  obtain ⟨hlt, -⟩ := List.getElem?_eq_some_iff.mp hn
  have hne : n ≠ f.body.length - 1 := by
    rintro rfl
    rw [List.getLast?_eq_getElem?, hn, Option.some.injEq] at hlast
    rw [← hlast, hi] at hterminator
    cases hterminator
  omega

/-- A call that is not bad reaches a function that takes as many arguments as it passes. -/
theorem Executable.exists_of_callDefect?_eq_none {x : Executable} {f : CompiledFunc}
    {dst : Option Register} {callee : String} {args : List Register}
    (h : x.callDefect? f (.call dst callee args) = none) :
    ∃ g, x.resolve? callee = some g ∧ g.params = args.length := by
  unfold callDefect? at h
  dsimp only at h
  cases hg : x.resolve? callee with
  | none =>
    rw [hg] at h
    cases h
  | some g =>
    rw [hg] at h
    dsimp only at h
    split at h
    next hparams => exact ⟨g, rfl, hparams⟩
    next => cases h

/-- What a name reaches is a function of the executable. -/
theorem Executable.exists_function?_of_resolve? {x : Executable} {name : String}
    {f : CompiledFunc} (h : x.resolve? name = some f) : ∃ id, x.function? id = some f := by
  unfold resolve? at h
  obtain ⟨id, -, hid⟩ := Option.bind_eq_some_iff.mp h
  exact ⟨id, hid⟩

/-- What a program builds to is sound. -/
theorem Program.Builds.sound {p : Program} {x : Executable} (h : p.Builds x) : x.Sound := by
  intro id g hg
  obtain ⟨hdefect, hlink⟩ := (builds_iff p x).mp h
  obtain ⟨-, -, hcalls⟩ := (Executable.link_eq_ok_iff _ _).mp hlink
  have hcalls := x.defect?_eq_none_iff.mp hcalls id g hg
  rw [h.function?_eq] at hg
  obtain ⟨f, hf, rfl⟩ := Option.map_eq_some_iff.mp hg
  have hf := p.defect?_eq_none_iff.mp hdefect id f hf
  obtain ⟨hjumps, last, hlast, -⟩ := f.defect?_eq_none_iff.mp hf
  have hbody : ∀ i, i ∈ (f.lower id).code ↔ i ∈ f.body := fun i => List.mem_toArray
  refine ⟨?_, ?_, ?_, ?_, ?_, params_le_frameSize_lower f id⟩
  · intro i hi r hr
    exact f.register_lt_frameSize ((hbody i).mp hi) hr
  · intro i hi target htarget
    exact hjumps i ((hbody i).mp hi) target htarget
  · exact List.length_pos_of_mem (List.mem_of_getLast? hlast)
  · intro n i hn hi
    exact f.next_lt_of_defect? hf (by simpa [Func.lower] using hn) hi
  · intro dst callee args hcall
    exact Executable.exists_of_callDefect?_eq_none (hcalls _ (Array.mem_toList_iff.mpr hcall))

end MutationTester
