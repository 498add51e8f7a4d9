import MutationTester.Program.Order
import MutationTester.Mutation.Edit

/-!
# Exchanging one instruction

`Program.setInstruction` changes the program at one site and nowhere else
(`function?_setInstruction`, `instruction?_setInstruction`). A mutation is such an exchange
(`Operator.mutate_eq_ok_iff`), and its token holds all that is needed to take it back
(`Operator.revert_of_mutate`).
-/

set_option autoImplicit false

namespace MutationTester

/-- A site is told from others by its function and its index. -/
theorem Site.eq_iff (s t : Site) : s = t ↔ s.funcId = t.funcId ∧ s.index = t.index := by
  cases s
  cases t
  simp [Site.funcId, and_assoc]

namespace Program

/-! ## Looking up functions and instructions -/

/-- A function is found at its position by way of its module. -/
theorem function?_eq_some_iff (p : Program) (id : FuncId) (f : Func) :
    p.function? id = some f ↔
      ∃ m, p.modules[id.module]? = some m ∧ m.functions[id.function]? = some f := by
  unfold function?
  exact Option.bind_eq_some_iff

/-- An instruction is found at its site by way of its function. -/
theorem instruction?_eq_some_iff (p : Program) (s : Site) (i : Instruction) :
    p.instruction? s = some i ↔
      ∃ f, p.function? s.funcId = some f ∧ f.body[s.index]? = some i := by
  unfold instruction?
  exact Option.bind_eq_some_iff

/-- The module of a site with an instruction is a module of the program. -/
theorem module_lt_of_instruction? {p : Program} {s : Site} {i : Instruction}
    (h : p.instruction? s = some i) : s.module < p.modules.length := by
  obtain ⟨f, hf, -⟩ := (p.instruction?_eq_some_iff s i).mp h
  obtain ⟨m, hm, -⟩ := (p.function?_eq_some_iff s.funcId f).mp hf
  exact (List.getElem?_eq_some_iff.mp hm).1

/-- The enumeration of all functions holds each function with its position. -/
theorem mem_functions_iff (p : Program) (id : FuncId) (f : Func) :
    (id, f) ∈ p.functions ↔ p.function? id = some f := by
  rw [function?_eq_some_iff]
  unfold functions
  simp only [List.mem_flatMap, List.mem_map, Prod.exists, List.mem_zipIdx_iff_getElem?,
    Prod.mk.injEq]
  constructor
  · rintro ⟨m, i, hm, g, j, hg, rfl, rfl⟩
    exact ⟨m, hm, hg⟩
  · rintro ⟨m, hm, hf⟩
    exact ⟨m, id.module, hm, f, id.function, hf, rfl, rfl⟩

/-! ## Exchanging an instruction -/

/-- An exchange leaves the other modules as they are. -/
theorem modules_setInstruction_of_ne (p : Program) (s : Site) (i : Instruction) {k : Nat}
    (h : k ≠ s.module) : (p.setInstruction s i).modules[k]? = p.modules[k]? := by
  unfold setInstruction
  exact List.getElem?_modify_ne _ _ (Ne.symm h)

/-- An exchange keeps the number of modules. -/
theorem length_modules_setInstruction (p : Program) (s : Site) (i : Instruction) :
    (p.setInstruction s i).modules.length = p.modules.length := by
  simp [setInstruction]

/-- An exchange changes the body of the function that the site lies in, and no other function. -/
theorem function?_setInstruction (p : Program) (s : Site) (i : Instruction) (id : FuncId) :
    (p.setInstruction s i).function? id =
      if id = s.funcId then (p.function? id).map fun f => { f with body := f.body.set s.index i }
      else p.function? id := by
  obtain ⟨k, j⟩ := id
  unfold function? setInstruction
  by_cases hk : k = s.module
  · subst hk
    cases hm : p.modules[s.module]? with
    | none => simp [hm]
    | some m =>
      by_cases hj : j = s.function
      · subst hj
        simp [hm, Site.funcId]
      · simp [hm, Site.funcId, hj, Ne.symm hj]
  · simp [Site.funcId, hk, Ne.symm hk]

/-- After an exchange a function has the name that it had, and no instructions but those that it
had and the new one. -/
theorem exists_of_function?_setInstruction (p : Program) (s : Site) (i : Instruction) (id : FuncId)
    (g : Func) (hg : (p.setInstruction s i).function? id = some g) :
    ∃ f, p.function? id = some f ∧ g.name = f.name ∧ ∀ j ∈ g.body, j ∈ f.body ∨ j = i := by
  rw [function?_setInstruction] at hg
  by_cases hid : id = s.funcId
  · rw [if_pos hid] at hg
    obtain ⟨f, hf, rfl⟩ := Option.map_eq_some_iff.mp hg
    exact ⟨f, hf, rfl, fun j hj => List.mem_or_eq_of_mem_set hj⟩
  · rw [if_neg hid] at hg
    exact ⟨g, hg, rfl, fun j hj => Or.inl hj⟩

/-- An exchange puts the instruction at its site, if there is such a site, and leaves the
instructions at all other sites. -/
theorem instruction?_setInstruction (p : Program) (s t : Site) (i : Instruction) :
    (p.setInstruction s i).instruction? t =
      if t = s then (p.instruction? t).map fun _ => i else p.instruction? t := by
  unfold instruction?
  rw [function?_setInstruction]
  by_cases hf : t.funcId = s.funcId
  · rw [if_pos hf]
    cases p.function? t.funcId with
    | none => simp
    | some f =>
      by_cases ht : t = s
      · subst ht
        rw [if_pos rfl]
        show (f.body.set t.index i)[t.index]? = (f.body[t.index]?).map fun _ => i
        rw [List.getElem?_set_self']
        rfl
      · have hindex : s.index ≠ t.index := fun h => ht ((Site.eq_iff t s).mpr ⟨hf, h.symm⟩)
        simp [ht, List.getElem?_set_ne hindex]
  · have ht : t ≠ s := fun h => hf (congrArg Site.funcId h)
    rw [if_neg hf, if_neg ht]

/-- Of two exchanges at one site only the second counts. -/
theorem setInstruction_setInstruction (p : Program) (s : Site) (i j : Instruction) :
    (p.setInstruction s i).setInstruction s j = p.setInstruction s j := by
  simp only [setInstruction, List.modify_modify_eq]
  congr 2
  funext m
  simp only [Function.comp_apply, List.modify_modify_eq, Module.mk.injEq, true_and]
  congr 1
  funext f
  simp

/-- Exchanging an instruction for itself changes nothing. -/
theorem setInstruction_self (p : Program) (s : Site) (i : Instruction)
    (h : p.instruction? s = some i) : p.setInstruction s i = p := by
  obtain ⟨f, hf, hi⟩ := (instruction?_eq_some_iff p s i).mp h
  obtain ⟨m, hm, hj⟩ := (function?_eq_some_iff p s.funcId f).mp hf
  change p.modules[s.module]? = some m at hm
  change m.functions[s.function]? = some f at hj
  have hbody : f.body.set s.index i = f.body := by
    apply List.ext_getElem?
    intro n
    by_cases hn : s.index = n
    · subst hn
      rw [List.getElem?_set_self', hi]
      rfl
    · rw [List.getElem?_set_ne hn]
  have hfunctions : (m.functions.modify s.function fun f =>
      { f with body := f.body.set s.index i }) = m.functions := by
    apply List.ext_getElem?
    intro n
    by_cases hn : s.function = n
    · subst hn
      simp [hj, hbody]
    · rw [List.getElem?_modify_ne _ _ hn]
  have hmodules : (p.setInstruction s i).modules = p.modules := by
    unfold setInstruction
    apply List.ext_getElem?
    intro n
    by_cases hn : s.module = n
    · subst hn
      simp [hm, hfunctions]
    · rw [List.getElem?_modify_ne _ _ hn]
  cases p
  exact congrArg Program.mk hmodules

end Program

/-! ## Mutations -/

namespace Operator

/-- An operator applies where it has a replacement for the instruction. -/
theorem applies_iff (op : Operator) (p : Program) (s : Site) :
    op.applies p s = true ↔
      ∃ before after, p.instruction? s = some before ∧ op.replacement? before = some after := by
  unfold applies
  rw [Option.isSome_iff_exists]
  simp only [Option.bind_eq_bind, Option.bind_eq_some_iff]
  exact exists_comm

/-- A mutation exchanges the instruction for its replacement and notes it in the token. -/
theorem mutate_eq_ok_iff (op : Operator) (p : Program) (s : Site) (token : Applied)
    (mutated : Program) :
    op.mutate p s = .ok (token, mutated) ↔
      ∃ before after, p.instruction? s = some before ∧ op.replacement? before = some after ∧
        token = ⟨op, s, before⟩ ∧ mutated = p.setInstruction s after := by
  unfold mutate
  cases hbefore : p.instruction? s with
  | none => simp
  | some before =>
    cases hafter : op.replacement? before with
    | none => simp [hafter]
    | some after =>
      simp [hafter, eq_comm]

/-- Where an operator applies, the mutation is made. -/
theorem exists_mutate_of_applies (op : Operator) (p : Program) (s : Site)
    (h : op.applies p s = true) : ∃ token mutated, op.mutate p s = .ok (token, mutated) := by
  obtain ⟨before, after, hbefore, hafter⟩ := (applies_iff op p s).mp h
  exact ⟨_, _, (mutate_eq_ok_iff op p s _ _).mpr ⟨before, after, hbefore, hafter, rfl, rfl⟩⟩

/-- The token of a mutation gives the program back. -/
theorem revert_of_mutate (op : Operator) (p : Program) (s : Site) (token : Applied)
    (mutated : Program) (h : op.mutate p s = .ok (token, mutated)) :
    op.revert mutated token = .ok p := by
  obtain ⟨before, after, hbefore, -, rfl, rfl⟩ := (mutate_eq_ok_iff op p s token mutated).mp h
  have hsite : (p.setInstruction s after).instruction? s = some after := by
    rw [Program.instruction?_setInstruction, if_pos rfl, hbefore]
    rfl
  unfold revert
  rw [if_pos rfl, hsite]
  show Except.ok ((p.setInstruction s after).setInstruction s before) = .ok p
  rw [Program.setInstruction_setInstruction, Program.setInstruction_self p s before hbefore]

end Operator

end MutationTester
