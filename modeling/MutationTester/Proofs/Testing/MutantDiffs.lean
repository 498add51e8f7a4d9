import MutationTester.Proofs.Mutation.Tokens
import MutationTester.Proofs.Program.Listings
import MutationTester.Proofs.Testing.Campaigns
import MutationTester.Proofs.Text.Alignments

/-!
# What the difference of a mutant shows

A mutation exchanges one instruction for another that has a different text, so it exchanges one line of
the listing, and the difference of the two listings shows the one line deleted and the other inserted,
and nothing else (`MutantRun.diff_shows_mutation`). Nothing is asked of the way in which the lines are
aligned but that it deletes and inserts as few as it can.
-/

set_option autoImplicit false

namespace MutationTester

open Text (Unbroken Edit ofLines splitKeepingEnds settle align)

namespace Operator

variable {op : Operator} {before after : Instruction}

theorem callee?_of_replacement? (h : op.replacement? before = some after) : after.callee? = none := by
  unfold replacement? at h
  split at h
  all_goals cases h
  all_goals rfl

/-- What an operator puts in the place of an instruction has another text. -/
theorem text_ne_of_replacement? (h : op.replacement? before = some after) :
    before.text ≠ after.text := by
  intro htext
  obtain ⟨hdst, hkeyword, hoperands⟩ := Instruction.parts_eq_of_text_eq htext
  exact replacement?_ne h (Instruction.eq_of_parts_eq hdst hkeyword hoperands).symm

end Operator

namespace MutantRun

theorem listingOf_eq {p : Program} {id : FuncId} {f : Func} (hf : p.function? id = some f) :
    listingOf p id = f.listing := by
  unfold listingOf
  rw [hf]
  rfl

/-- The result of a mutant that has been applied bears the difference of the listings before and
after. -/
theorem diff_of_execute {σ : Type} {compiled : CompiledProgram} {sandbox : Sandbox σ}
    {limits : Limits} {config : Config} {tests : List Test} {mutant : Mutant} {token : Applied}
    {p mutated p' : Program} {result : MutantResult} {s s' : σ} (hsome : mutant.testees ≠ [])
    (hmutate : mutant.point.operator.mutate p mutant.point.site = .ok (token, mutated))
    (h : execute compiled sandbox limits config tests mutant p s = (.ok (result, p'), s')) :
    result.diff = Text.diff (listingOf p mutant.point.site.funcId)
      (listingOf mutated mutant.point.site.funcId) := by
  rw [execute_of_mutate hsome hmutate] at h
  dsimp only at h
  generalize Text.diff (listingOf p _) (listingOf mutated _) = diff at h ⊢
  generalize hruns : runApplied compiled sandbox limits config tests mutant mutated _ s = r at h
  obtain ⟨_ | result, s₁⟩ := r
  · cases h
  · cases h
    unfold runApplied at hruns
    dsimp only at hruns
    split at hruns
    · cases hruns
    · split at hruns
      next => cases hruns; rfl
      next =>
        split at hruns
        next => cases hruns
        next => cases hruns; rfl

/-- The difference of a mutant shows its mutation, if neither the name of the function nor that of one
that it calls breaks a line: wherever an operator applies, the line of the instruction is shown as deleted
and that of its replacement, which is another, as inserted, and there are no other lines. The same is
shown by any shortest edits between the two listings, and by the result of every mutant of that
instruction by that operator that some test reaches. -/
theorem diff_shows_mutation (op : Operator) (p : Program) (site : Site) (f : Func)
    (hf : p.function? site.funcId = some f) (hname : Unbroken f.name)
    (hcallees : ∀ callee ∈ f.callees, Unbroken callee) (happlies : op.applies p site = true) :
    ∃ before after mutated,
      p.instruction? site = some before ∧ op.replacement? before = some after ∧
      op.mutate p site = .ok (⟨op, site, before⟩, mutated) ∧
      let old := Func.instructionLine site.index before
      let new := Func.instructionLine site.index after
      let listing := listingOf p site.funcId
      let listing' := listingOf mutated site.funcId
      old ≠ new ∧
      Text.diff listing listing' = "- " ++ old ++ "\n" ++ ("+ " ++ new ++ "\n") ∧
      splitKeepingEnds (Text.diff listing listing') = ["- " ++ old ++ "\n", "+ " ++ new ++ "\n"] ∧
      Edit.IsShortest (settle (align (splitKeepingEnds listing) (splitKeepingEnds listing')))
        (splitKeepingEnds listing) (splitKeepingEnds listing') ∧
      (∀ edits, Edit.IsShortest edits (splitKeepingEnds listing) (splitKeepingEnds listing') →
        Edit.shown edits = Text.diff listing listing') ∧
      ∀ {σ : Type} (compiled : CompiledProgram) (sandbox : Sandbox σ) (limits : Limits)
        (config : Config) (tests : List Test) (mutant : Mutant) (result : MutantResult)
        (p' : Program) (s s' : σ),
        mutant.point.operator = op → mutant.point.site = site → mutant.testees ≠ [] →
        execute compiled sandbox limits config tests mutant p s = (.ok (result, p'), s') →
        result.diff = Text.diff listing listing' := by
  obtain ⟨before, after, hbefore, hafter⟩ := (op.applies_iff p site).mp happlies
  obtain ⟨f', hf', hi⟩ := (p.instruction?_eq_some_iff site before).mp hbefore
  obtain rfl : f = f' := Option.some.inj (hf.symm.trans hf')
  have hmutate := (op.mutate_eq_ok_iff p site _ _).mpr ⟨before, after, hbefore, hafter, rfl, rfl⟩
  refine ⟨before, after, p.setInstruction site after, hbefore, hafter, hmutate, ?_⟩
  have hne := Operator.text_ne_of_replacement? hafter
  obtain ⟨front, back, hlines, hlines', hold, hnew⟩ := f.exists_listingLines_set hi hne
  intro old new listing listing'
  have hlisting : listing = ofLines (front ++ old :: back) :=
    (listingOf_eq hf).trans (congrArg ofLines hlines)
  have hlisting' : listing' = ofLines (front ++ new :: back) := by
    have hf' : (p.setInstruction site after).function? site.funcId =
        some { f with body := f.body.set site.index after } := by
      rw [Program.function?_setInstruction, if_pos rfl, hf]
      rfl
    exact (listingOf_eq hf').trans (congrArg ofLines hlines')
  have hunbroken : ∀ line ∈ front ++ old :: back, Unbroken line := by
    rw [← hlines]
    exact fun line => Func.unbroken_of_mem_listingLines hname hcallees
  -- the replacement calls nothing, so that no name is in its line
  have hunbroken' : ∀ line ∈ front ++ new :: back, Unbroken line := by
    have hreplaced : Unbroken new := Func.unbroken_instructionLine site.index fun callee h => by
      rw [Operator.callee?_of_replacement? hafter] at h
      cases h
    simp only [List.forall_mem_append, List.forall_mem_cons] at hunbroken ⊢
    exact ⟨hunbroken.1, hreplaced, hunbroken.2.2⟩
  obtain ⟨hshortest, hdiff⟩ := Text.diff_replaced hunbroken hunbroken' hold hnew
  have hshown : ∀ line ∈ ["- " ++ old, "+ " ++ new], Unbroken line := by
    have hchanged := hunbroken old (by simp)
    have hchanged' := hunbroken' new (by simp)
    simp +decide [hchanged, hchanged']
  rw [← hlisting, ← hlisting'] at hshortest hdiff
  refine ⟨fun heq => hne (Func.eq_of_instructionLine_eq heq).2, ?_, ?_, hshortest, ?_, ?_⟩
  · exact hdiff.trans (by simp)
  · exact (congrArg splitKeepingEnds hdiff).trans (Text.splitKeepingEnds_ofLines hshown)
  · intro edits hedits
    rw [hlisting, hlisting'] at hedits
    exact (Text.shown_of_isShortest hunbroken hunbroken' hold hnew hedits).trans hdiff.symm
  · rintro σ compiled sandbox limits config tests mutant result p' s s' rfl rfl hsome hexecute
    exact diff_of_execute hsome hmutate hexecute

/-- A function that makes the same addition three times, and then calls one with a name like it. -/
def tripling : Func :=
  ⟨"add(1 params):", 1, [.binary .add 0 0 0, .binary .add 0 0 0, .binary .add 0 0 0,
    .call none "r0 = add r0, r0" [], .ret none]⟩

/-- If the second of the additions is exchanged, it is the one that is shown. -/
theorem diff_shows_second_addition :
    let p : Program := ⟨[⟨"arithmetic", [tripling]⟩]⟩
    ∃ mutated, Operator.addToSub.mutate p ⟨0, 0, 1⟩ =
        .ok (⟨.addToSub, ⟨0, 0, 1⟩, .binary .add 0 0 0⟩, mutated) ∧
      Text.diff (listingOf p ⟨0, 0⟩) (listingOf mutated ⟨0, 0⟩) =
        "-     1: r0 = add r0, r0\n+     1: r0 = sub r0, r0\n" := by
  intro p
  obtain ⟨before, after, mutated, hbefore, hafter, hmutate, -, hdiff, -⟩ :=
    diff_shows_mutation .addToSub p ⟨0, 0, 1⟩ tripling rfl (by decide) (by decide) (by decide)
  cases hbefore
  cases hafter
  exact ⟨mutated, hmutate, hdiff.trans (by decide)⟩

end MutantRun

end MutationTester
