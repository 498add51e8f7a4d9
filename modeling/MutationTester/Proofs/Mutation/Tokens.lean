import MutationTester.Proofs.Program.Editing

/-!
# Tokens of applied mutations

Mutations are applied to one program and reverted in any order, several at a time and more than one
at a site. A ledger keeps the program with the tokens that are outstanding (`Ledger`). If the tokens
of each site are redeemed in the reverse of the order in which they were issued, undoing all that is
outstanding would give the original program (`Ledger.Sound`), so that the program differs from it at
sites with an outstanding token only (`Ledger.restores_original`). What is applied and reverted is
written in place, and a step that is refused is refused before it has written anything
(`Operator.run_mutateInPlace`, `Operator.run_revertInPlace`).
-/

set_option autoImplicit false

namespace MutationTester

/-! ## The shape of a program -/

theorem map_modify_of_eq {α β : Type} {f : α → β} {g : α → α} (h : ∀ a, f (g a) = f a) (l : List α)
    (n : Nat) : (l.modify n g).map f = l.map f := by
  apply List.ext_getElem?
  intro k
  rw [List.getElem?_map, List.getElem?_map, List.getElem?_modify]
  cases l[k]? with
  | none => rfl
  | some a =>
    split
    · exact congrArg some (h a)
    · rfl

theorem eq_of_map_eq {α β : Type} {f : α → β} {l l' : List α} (hmap : l.map f = l'.map f)
    (h : ∀ (k : Nat) (a b : α), l[k]? = some a → l'[k]? = some b → f a = f b → a = b) :
    l = l' := by
  apply List.ext_getElem?
  intro k
  have hk := congrArg (·[k]?) hmap
  simp only [List.getElem?_map] at hk
  cases ha : l[k]? with
  | none =>
    rw [ha] at hk
    exact (Option.map_eq_none_iff.mp hk.symm).symm
  | some a =>
    rw [ha] at hk
    obtain ⟨b, hb, heq⟩ := Option.map_eq_some_iff.mp hk.symm
    rw [hb, h k a b ha hb heq.symm]

namespace Program

/-- What a program is apart from its instructions: its modules and functions with their names, the
numbers of parameters and the lengths of the bodies. -/
def shape (p : Program) : List (String × List (String × UInt32 × Nat)) :=
  p.modules.map fun m => (m.name, m.functions.map fun f => (f.name, f.params, f.body.length))

theorem shape_setInstruction (p : Program) (s : Site) (i : Instruction) :
    (p.setInstruction s i).shape = p.shape := by
  unfold shape setInstruction
  apply map_modify_of_eq
  intro m
  dsimp only
  rw [map_modify_of_eq]
  intro f
  rw [List.length_set]

/-- A program is known from its shape and its instructions. -/
theorem eq_of_shape_eq {p q : Program} (hshape : p.shape = q.shape)
    (hinstruction : ∀ s, p.instruction? s = q.instruction? s) : p = q := by
  obtain ⟨modules⟩ := p
  obtain ⟨modules'⟩ := q
  congr 1
  apply eq_of_map_eq hshape
  rintro k ⟨name, functions⟩ ⟨name', functions'⟩ hm hm' hmodule
  obtain ⟨rfl, hfunctions⟩ := Prod.mk.inj hmodule
  congr 1
  apply eq_of_map_eq hfunctions
  rintro j ⟨name, params, body⟩ ⟨name', params', body'⟩ hf hf' hfunction
  obtain ⟨rfl, hfunction⟩ := Prod.mk.inj hfunction
  obtain ⟨rfl, -⟩ := Prod.mk.inj hfunction
  congr 1
  apply List.ext_getElem?
  intro n
  have hn := hinstruction ⟨k, j, n⟩
  simpa [instruction?, function?, Site.funcId, hm, hm', hf, hf'] using hn

end Program

/-! ## Mutations in place -/

namespace Operator

/-- Applies an operator at a site of the program at hand, which is written when nothing can be
refused any more. -/
def mutateInPlace (op : Operator) (site : Site) : ExceptT Violation (StateM Program) Applied := do
  let p ← get
  match p.instruction? site with
  | none => throw (.noInstruction op site)
  | some before =>
    match op.replacement? before with
    | none => throw (.notApplicable op before)
    | some after =>
      set (p.setInstruction site after)
      return ⟨op, site, before⟩

/-- Reverts a mutation of the program at hand and gives back its site. -/
def revertInPlace (op : Operator) (token : Applied) : ExceptT Violation (StateM Program) Site := do
  if op ≠ token.operator then throw .operatorMismatch
  let p ← get
  match p.instruction? token.site with
  | none => throw (.noInstruction op token.site)
  | some _ =>
    set (p.setInstruction token.site token.replaced)
    return token.site

theorem run_get_bind {α : Type} (f : Program → ExceptT Violation (StateM Program) α) (p : Program) :
    (get >>= f).run.run p = (f p).run.run p := rfl

/-- Applying in place gives the mutated program, or leaves the program as it is and refuses. -/
theorem run_mutateInPlace (op : Operator) (site : Site) (p : Program) :
    (op.mutateInPlace site).run.run p =
      match op.mutate p site with
      | .ok (token, mutated) => (.ok token, mutated)
      | .error v => (.error v, p) := by
  unfold mutateInPlace mutate
  rw [run_get_bind]
  cases p.instruction? site with
  | none => rfl
  | some before =>
    dsimp only
    cases op.replacement? before <;> rfl

/-- Reverting in place gives the restored program, or leaves the program as it is and refuses. -/
theorem run_revertInPlace (op : Operator) (token : Applied) (p : Program) :
    (op.revertInPlace token).run.run p =
      match op.revert p token with
      | .ok restored => (.ok token.site, restored)
      | .error v => (.error v, p) := by
  unfold revertInPlace revert
  by_cases hop : op = token.operator
  · rw [if_pos hop, if_neg (not_not_intro hop)]
    show (get >>= _ : ExceptT Violation (StateM Program) Site).run.run p = _
    rw [run_get_bind]
    cases p.instruction? token.site <;> rfl
  · rw [if_neg hop, if_pos hop]
    rfl

/-- A mutation is reverted by the operator that made it, if its site is one of the program. -/
theorem revert_eq_ok_iff (op : Operator) (p : Program) (token : Applied) (restored : Program) :
    op.revert p token = .ok restored ↔
      op = token.operator ∧ (∃ i, p.instruction? token.site = some i) ∧
        restored = p.setInstruction token.site token.replaced := by
  unfold revert
  by_cases hop : op = token.operator
  · cases p.instruction? token.site <;> simp [hop, eq_comm]
  · simp [hop]

/-- No operator leaves an instruction as it is. -/
theorem replacement?_ne {op : Operator} {before after : Instruction}
    (h : op.replacement? before = some after) : after ≠ before := by
  rintro rfl
  unfold replacement? at h
  split at h
  next => cases h
  next pred _ _ _ => cases pred <;> cases h
  next => cases h
  next => cases h

end Operator

/-! ## Ledgers -/

/-- A token that has not been redeemed. It is at hand until it is handed back, and lost if the one
it is handed back to refuses it. It is overtaken when a token that was issued for the same site
before it is redeemed. -/
structure Ticket where
  token : Applied
  atHand : Bool
  overtaken : Bool
  deriving DecidableEq

/-- The ticket when a token that was issued before it is redeemed at a site. -/
def Ticket.afterRevertAt (site : Site) (t : Ticket) : Ticket :=
  { t with overtaken := t.overtaken || t.token.site = site }

/-- A program with the tokens that are outstanding, the last issued first, and whether tokens of the
same site have been redeemed in the reverse of the order in which they were issued: no token has
been redeemed that was overtaken. -/
structure Ledger where
  program : Program
  outstanding : List Ticket
  inOrder : Bool
  deriving DecidableEq

namespace Ledger

/-- What is done to the program of a ledger. -/
inductive Step
  /-- An operator is applied at a site. -/
  | apply (op : Operator) (site : Site)
  /-- The token at a place among those that are outstanding is handed back to an operator. -/
  | revert (op : Operator) (place : Nat)
  deriving DecidableEq

/-- The ledger of a program to which no mutation has been applied. -/
def opened (p : Program) : Ledger := ⟨p, [], true⟩

/-- Applies an operator at a site. -/
def apply (l : Ledger) (op : Operator) (site : Site) : Option Violation × Ledger :=
  match (op.mutateInPlace site).run.run l.program with
  | (.ok token, p) =>
    (none, { l with program := p, outstanding := ⟨token, true, false⟩ :: l.outstanding })
  | (.error v, p) => (some v, { l with program := p })

/-- Hands a token back to an operator, between those that were issued after and before it. -/
def redeem (l : Ledger) (op : Operator) (later : List Ticket) (t : Ticket) (earlier : List Ticket) :
    Option Violation × Ledger :=
  match (op.revertInPlace t.token).run.run l.program with
  | (.ok site, p) =>
    (none, ⟨p, later.map (·.afterRevertAt site) ++ earlier, l.inOrder && !t.overtaken⟩)
  | (.error v, p) => (some v, ⟨p, later ++ { t with atHand := false } :: earlier, l.inOrder⟩)

/-- Makes a step: the ledger after it, and the violation if the step is refused. A token that is not
at hand cannot be handed back, so that nothing is done then. -/
def step (l : Ledger) : Step → Option Violation × Ledger
  | .apply op site => l.apply op site
  | .revert op place =>
    match l.outstanding[place]? with
    | some t =>
      if t.atHand then
        l.redeem op (l.outstanding.take place) t (l.outstanding.drop (place + 1))
      else (none, l)
    | none => (none, l)

/-- The ledger after some steps. -/
def after (l : Ledger) (steps : List Step) : Ledger := steps.foldl (fun l s => (l.step s).2) l

/-- The instruction that a site would have if all mutations were undone whose tokens are
outstanding, the last first. -/
def undone (site : Site) (outstanding : List Ticket) (current : Option Instruction) :
    Option Instruction :=
  outstanding.foldl
    (fun i t => if t.token.site = site then some t.token.replaced else i) current

/-- A ledger that is true to the program that it was opened with. The program still has the shape,
and unless tokens of some site have not been redeemed in order, undoing what is outstanding at a
site gives its original instruction, or there is a token of that site that can no longer be redeemed
in order. -/
structure Sound (original : Program) (l : Ledger) : Prop where
  shape_eq : l.program.shape = original.shape
  undone_eq : l.inOrder = true → ∀ site,
    (∃ t ∈ l.outstanding, t.token.site = site ∧ t.overtaken = true) ∨
      undone site l.outstanding (l.program.instruction? site) = original.instruction? site

theorem undone_of_forall_ne {site : Site} {outstanding : List Ticket}
    (h : ∀ t ∈ outstanding, t.token.site ≠ site) (current : Option Instruction) :
    undone site outstanding current = current := by
  induction outstanding generalizing current with
  | nil => rfl
  | cons t rest ih =>
    obtain ⟨ht, hrest⟩ := List.forall_mem_cons.mp h
    rw [undone, List.foldl_cons, if_neg ht]
    exact ih hrest current

theorem undone_map (site site' : Site) (outstanding : List Ticket) (current : Option Instruction) :
    undone site (outstanding.map (·.afterRevertAt site')) current =
      undone site outstanding current := by
  unfold undone
  rw [List.foldl_map]
  rfl

theorem undone_append (site : Site) (later earlier : List Ticket) (current : Option Instruction) :
    undone site (later ++ earlier) current = undone site earlier (undone site later current) :=
  List.foldl_append

variable {original : Program} {l : Ledger}

theorem sound_opened (original : Program) : (opened original).Sound original :=
  ⟨rfl, fun _ _ => .inr rfl⟩

theorem Sound.apply (h : l.Sound original) (op : Operator) (site : Site) :
    (l.apply op site).2.Sound original := by
  unfold Ledger.apply
  rw [Operator.run_mutateInPlace]
  cases hmutate : op.mutate l.program site with
  | error v => exact h
  | ok issued =>
    obtain ⟨token, mutated⟩ := issued
    obtain ⟨before, new, hbefore, -, rfl, rfl⟩ := (op.mutate_eq_ok_iff _ _ _ _).mp hmutate
    refine ⟨(l.program.shape_setInstruction site new).trans h.shape_eq, ?_⟩
    -- to undo the new mutation first is to undo what was outstanding before it
    intro hinOrder site'
    rcases h.undone_eq hinOrder site' with ⟨t, ht, hovertaken⟩ | hundone
    · exact .inl ⟨t, List.mem_cons_of_mem _ ht, hovertaken⟩
    · right
      rw [← hundone]
      show undone site' l.outstanding
          (if site = site' then some before
            else (l.program.setInstruction site new).instruction? site') = _
      by_cases hsite : site = site'
      · subst hsite
        rw [if_pos rfl, hbefore]
      · rw [if_neg hsite, Program.instruction?_setInstruction, if_neg (Ne.symm hsite)]

/-- A token that is lost is still outstanding, and what it holds is still needed. -/
theorem Sound.lose (h : l.Sound original) {later earlier : List Ticket} {t : Ticket}
    (houtstanding : l.outstanding = later ++ t :: earlier) :
    Sound original ⟨l.program, later ++ { t with atHand := false } :: earlier, l.inOrder⟩ := by
  refine ⟨h.shape_eq, ?_⟩
  intro hinOrder site
  have hsite := h.undone_eq hinOrder site
  rw [houtstanding, undone_append] at hsite
  rcases hsite with ⟨u, hu, hus, hovertaken⟩ | hundone
  · left
    rcases List.mem_append.mp hu with hu | hu
    · exact ⟨u, List.mem_append_left _ hu, hus, hovertaken⟩
    rcases List.mem_cons.mp hu with rfl | hu
    · exact ⟨_, List.mem_append_right _ List.mem_cons_self, hus, hovertaken⟩
    · exact ⟨u, List.mem_append_right _ (List.mem_cons_of_mem _ hu), hus, hovertaken⟩
  · right
    rw [← hundone]
    exact undone_append site later _ _

/-- A token that is redeemed undoes its mutation before those that were made at its site after it,
if there are such mutations, whose tokens are overtaken then. -/
theorem Sound.undo (h : l.Sound original) {later earlier : List Ticket} {t : Ticket}
    (houtstanding : l.outstanding = later ++ t :: earlier) {i : Instruction}
    (hi : l.program.instruction? t.token.site = some i) :
    Sound original ⟨l.program.setInstruction t.token.site t.token.replaced,
      later.map (·.afterRevertAt t.token.site) ++ earlier, l.inOrder && !t.overtaken⟩ := by
  refine ⟨(l.program.shape_setInstruction _ _).trans h.shape_eq, ?_⟩
  intro hinOrder site
  obtain ⟨hinOrder, hnot⟩ : l.inOrder = true ∧ t.overtaken = false := by simpa using hinOrder
  have hsite := h.undone_eq hinOrder site
  rw [houtstanding, undone_append] at hsite
  rcases hsite with ⟨u, hu, hus, hovertaken⟩ | hundone
  · -- a token that was overtaken before is not the one that is redeemed
    left
    rcases List.mem_append.mp hu with hu | hu
    · refine ⟨_, List.mem_append_left _ (List.mem_map_of_mem hu), hus, ?_⟩
      rw [Ticket.afterRevertAt, hovertaken, Bool.true_or]
    rcases List.mem_cons.mp hu with rfl | hu
    · rw [hnot] at hovertaken
      cases hovertaken
    · exact ⟨u, List.mem_append_right _ hu, hus, hovertaken⟩
  · by_cases hlater : ∃ u ∈ later, u.token.site = t.token.site ∧ u.token.site = site
    · left
      obtain ⟨u, hu, hsame, hus⟩ := hlater
      refine ⟨_, List.mem_append_left _ (List.mem_map_of_mem hu), hus, ?_⟩
      rw [Ticket.afterRevertAt, decide_eq_true hsame, Bool.or_true]
    · -- the mutation is the last one that is outstanding at its site
      right
      show undone site (later.map _ ++ earlier)
        ((l.program.setInstruction t.token.site t.token.replaced).instruction? site) = _
      rw [← hundone, undone_append, undone_map, Program.instruction?_setInstruction]
      show _ = undone site earlier (if t.token.site = site then some t.token.replaced else _)
      by_cases hsite : t.token.site = site
      · subst hsite
        have hnone : ∀ u ∈ later, u.token.site ≠ t.token.site :=
          fun u hu hus => hlater ⟨u, hu, hus, hus⟩
        rw [if_pos rfl, if_pos rfl, hi, undone_of_forall_ne hnone]
        rfl
      · rw [if_neg (Ne.symm hsite), if_neg hsite]

theorem Sound.redeem (h : l.Sound original) (op : Operator) {later earlier : List Ticket}
    {t : Ticket} (houtstanding : l.outstanding = later ++ t :: earlier) :
    (l.redeem op later t earlier).2.Sound original := by
  unfold Ledger.redeem
  rw [Operator.run_revertInPlace]
  cases hrevert : op.revert l.program t.token with
  | error v => exact h.lose houtstanding
  | ok restored =>
    obtain ⟨-, ⟨i, hi⟩, rfl⟩ := (op.revert_eq_ok_iff _ _ _).mp hrevert
    exact h.undo houtstanding hi

theorem Sound.step (h : l.Sound original) (s : Step) : (l.step s).2.Sound original := by
  cases s with
  | apply op site => exact h.apply op site
  | revert op place =>
    unfold Ledger.step
    dsimp only
    split
    next t ht =>
      split
      next =>
        obtain ⟨hlt, rfl⟩ := List.getElem?_eq_some_iff.mp ht
        apply h.redeem
        rw [← List.drop_eq_getElem_cons hlt, List.take_append_drop]
      next => exact h
    next => exact h

theorem Sound.after (h : l.Sound original) (steps : List Step) :
    (l.after steps).Sound original := by
  induction steps generalizing l with
  | nil => exact h
  | cons s rest ih => exact ih (h.step s)

theorem program_step_of_refused {s : Step} {v : Violation} (h : (l.step s).1 = some v) :
    (l.step s).2.program = l.program := by
  cases s with
  | apply op site =>
    simp only [step, apply, Operator.run_mutateInPlace] at h ⊢
    cases hmutate : op.mutate l.program site with
    | error v => rfl
    | ok issued =>
      rw [hmutate] at h
      cases h
  | revert op place =>
    simp only [step] at h ⊢
    split at h
    next t _ =>
      split at h
      next hatHand =>
        simp only [redeem, Operator.run_revertInPlace] at h ⊢
        cases hrevert : op.revert l.program t.token with
        | error v => rw [if_pos hatHand]
        | ok restored =>
          rw [hrevert] at h
          cases h
      next => cases h
    next => cases h

/-- An operator is refused where it does not apply, and changes the instruction everywhere else. -/
theorem step_apply_cases (l : Ledger) (op : Operator) (site : Site) :
    ((l.step (.apply op site)).1.isSome = true ∧ op.applies l.program site = false) ∨
      ((l.step (.apply op site)).1 = none ∧ op.applies l.program site = true ∧
        (l.step (.apply op site)).2.program.instruction? site ≠ l.program.instruction? site) := by
  simp only [step, apply, Operator.run_mutateInPlace]
  cases happlies : op.applies l.program site with
  | true =>
    right
    obtain ⟨token, mutated, hmutate⟩ := op.exists_mutate_of_applies _ _ happlies
    obtain ⟨before, new, hbefore, hnew, -, rfl⟩ := (op.mutate_eq_ok_iff _ _ _ _).mp hmutate
    rw [hmutate]
    refine ⟨rfl, rfl, ?_⟩
    show (l.program.setInstruction site new).instruction? site ≠ _
    rw [Program.instruction?_setInstruction, if_pos rfl, hbefore]
    intro heq
    exact Operator.replacement?_ne hnew (Option.some.inj heq)
  | false =>
    left
    cases hmutate : op.mutate l.program site with
    | error v => exact ⟨rfl, rfl⟩
    | ok issued =>
      obtain ⟨before, new, hbefore, hnew, -, -⟩ := (op.mutate_eq_ok_iff _ _ _ _).mp hmutate
      rw [(op.applies_iff _ _).mpr ⟨before, new, hbefore, hnew⟩] at happlies
      cases happlies

/-- Mutations that are applied and reverted in order restore the program. Let operators be applied
to a program at any sites and the tokens be handed back to any operators, each step as it can be
made, and look at what there is after any number of steps. The modules, the names, the parameters
and the lengths of the bodies are those of the original program. If no token has been redeemed after
one that was issued before it for the same site while both were outstanding, the program has its
original instructions at all sites without an outstanding token, and is the original program if
there is no such token. A next step that is refused leaves the program as it is. An operator is
refused exactly where it does not apply, and changes the instruction otherwise. -/
theorem restores_original (original : Program) (steps : List Step) :
    let l := (opened original).after steps
    l.program.shape = original.shape ∧
      (l.inOrder = true →
        (∀ site, (∀ t ∈ l.outstanding, t.token.site ≠ site) →
          l.program.instruction? site = original.instruction? site) ∧
        (l.outstanding = [] → l.program = original)) ∧
      (∀ s v, (l.step s).1 = some v → (l.step s).2.program = l.program) ∧
      ∀ op site, ((l.step (.apply op site)).1.isSome = true ↔ op.applies l.program site = false) ∧
        ((l.step (.apply op site)).1 = none →
          (l.step (.apply op site)).2.program.instruction? site ≠
            l.program.instruction? site) := by
  intro l
  have hsound : l.Sound original := (sound_opened original).after steps
  refine ⟨hsound.shape_eq, ?_, fun s v hrefused => program_step_of_refused hrefused, ?_⟩
  · intro hinOrder
    have hsite : ∀ site, (∀ t ∈ l.outstanding, t.token.site ≠ site) →
        l.program.instruction? site = original.instruction? site := by
      intro site hnone
      rcases hsound.undone_eq hinOrder site with ⟨t, ht, hts, -⟩ | hundone
      · exact absurd hts (hnone t ht)
      · rw [undone_of_forall_ne hnone] at hundone
        exact hundone
    refine ⟨hsite, ?_⟩
    intro hempty
    apply Program.eq_of_shape_eq hsound.shape_eq
    intro site
    apply hsite
    rw [hempty]
    exact List.forall_mem_nil _
  · intro op site
    rcases l.step_apply_cases op site with ⟨hrefused, happlies⟩ | ⟨hmade, happlies, hchanged⟩
    · refine ⟨⟨fun _ => happlies, fun _ => hrefused⟩, ?_⟩
      intro hmade
      rw [hmade] at hrefused
      cases hrefused
    · rw [hmade, happlies]
      exact ⟨⟨nofun, nofun⟩, fun _ => hchanged⟩

/-- A program with a comparison and an addition. -/
def comparingProgram : Program where
  modules := [⟨"lib", [⟨"max", 2, [.compare .lt 2 0 1, .binary .add 3 2 0, .ret (some 3)]⟩]⟩]

/-- The comparison is negated, and negated again while it is. The addition is exchanged in between,
where it is refused a second time, and is restored first. -/
def interleavedSteps : List Step :=
  [.apply .negateCondition ⟨0, 0, 0⟩, .apply .addToSub ⟨0, 0, 1⟩, .apply .negateCondition ⟨0, 0, 0⟩,
    .apply .addToSub ⟨0, 0, 1⟩, .revert .addToSub 1, .revert .negateCondition 0,
    .revert .negateCondition 0]

/-- All tokens of the interleaved steps are redeemed in order, so that the program is restored.
Before that, when only the addition is back, its site is one without an outstanding token. -/
theorem interleaved_steps_restore :
    ((opened comparingProgram).after interleavedSteps).inOrder = true ∧
      ((opened comparingProgram).after interleavedSteps).outstanding = [] ∧
      ((opened comparingProgram).after interleavedSteps).program = comparingProgram ∧
      ((opened comparingProgram).after (interleavedSteps.take 5)).inOrder = true ∧
      ((opened comparingProgram).after (interleavedSteps.take 5)).outstanding.length = 2 ∧
      ((opened comparingProgram).after (interleavedSteps.take 5)).program.instruction? ⟨0, 0, 1⟩ =
        comparingProgram.instruction? ⟨0, 0, 1⟩ := by
  have hinOrder : ((opened comparingProgram).after interleavedSteps).inOrder = true := by decide
  have hempty : ((opened comparingProgram).after interleavedSteps).outstanding = [] := by decide
  have hearlier : ((opened comparingProgram).after (interleavedSteps.take 5)).inOrder = true := by
    decide
  have hnone : ∀ t ∈ ((opened comparingProgram).after (interleavedSteps.take 5)).outstanding,
      t.token.site ≠ ⟨0, 0, 1⟩ := by
    decide
  obtain ⟨-, hrestored, -⟩ := restores_original comparingProgram interleavedSteps
  obtain ⟨-, hbetween, -⟩ := restores_original comparingProgram (interleavedSteps.take 5)
  exact ⟨hinOrder, hempty, (hrestored hinOrder).2 hempty, hearlier, by decide,
    (hbetween hearlier).1 _ hnone⟩

/-- The order matters: if the first of two tokens of a site is redeemed first, the second one brings
the negated comparison back. -/
example :
    let l := (opened comparingProgram).after [.apply .negateCondition ⟨0, 0, 0⟩,
      .apply .negateCondition ⟨0, 0, 0⟩, .revert .negateCondition 1, .revert .negateCondition 0]
    l.inOrder = false ∧ l.outstanding = [] ∧ l.program ≠ comparingProgram := by
  decide

end Ledger

end MutationTester
