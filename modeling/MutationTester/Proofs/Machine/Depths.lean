import MutationTester.Proofs.Machine.Recording

/-!
# Depths in coverage records

The record of a run knows a depth for every function in which something was executed, and all its
depths are less than the number of calls that may be nested (`Coverage.Maps`). While the run is
under way it also knows a depth for every function that is running or waits, which is what carries
the invariant from step to step (`RunState.maps_run`).
-/

set_option autoImplicit false

namespace MutationTester

/-- A record that knows a depth for the functions of all executed sites and for the given
functions, where no depth reaches the limit. -/
structure Coverage.Maps (limits : Limits) (active : List FuncId) (c : Coverage) : Prop where
  entered : ∀ s, c.isExecuted s = true → (c.distance? s.funcId).isSome = true
  shallow : ∀ f d, c.distance? f = some d → d < limits.maxCallDepth
  active : ∀ f ∈ active, (c.distance? f).isSome = true

/-- The functions of frames that wait. -/
def waitingFunctions (waiting : List Waiting) : List FuncId :=
  waiting.map fun w => w.frame.function.id

/-- A machine whose record, if it keeps one, maps the given functions. -/
def Machine.Maps (limits : Limits) (active : List FuncId) (m : Machine) : Prop :=
  ∀ c, m.coverage = some c → c.Maps limits active

/-- What a step leads to has a record that maps all functions that are under way. -/
def Progress.Maps (limits : Limits) : Progress → Prop
  | .running c => c.machine.Maps limits (c.frame.function.id :: waitingFunctions c.waiting)
  | .ended _ m => m.Maps limits []

namespace Coverage.Maps

variable {limits : Limits} {active : List FuncId} {c : Coverage}

theorem mono (h : c.Maps limits active) {others : List FuncId} (hsub : others ⊆ active) :
    c.Maps limits others where
  entered := h.entered
  shallow := h.shallow
  active f hf := h.active f (hsub hf)

/-- Executing an instruction of a function with a known depth keeps the record as it should be. -/
theorem hit (h : c.Maps limits active) {s : Site} (hs : s.funcId ∈ active) :
    (c.hit s).Maps limits active where
  entered t ht := by
    rw [isExecuted_hit, Bool.or_eq_true, decide_eq_true_eq] at ht
    rw [distance?_hit]
    rcases ht with rfl | ht
    · exact h.active t.funcId hs
    · exact h.entered t ht
  shallow f d hd := h.shallow f d hd
  active f hf := h.active f hf

/-- Entering a function below the limit keeps the record as it should be, with a depth for that
function. -/
theorem enter (h : c.Maps limits active) (f : FuncId) {depth : Nat}
    (hdepth : depth < limits.maxCallDepth) : (c.enter f depth).Maps limits (f :: active) := by
  have hkept : ∀ g, (c.distance? g).isSome = true →
      ((c.enter f depth).distance? g).isSome = true := by
    intro g hg
    rw [distance?_enter]
    split
    · rfl
    · exact hg
  refine ⟨fun s hs => hkept _ (h.entered s hs), ?_, ?_⟩
  · intro g d hd
    rw [distance?_enter] at hd
    split at hd
    next =>
      cases hleast : c.distance? f with
      | none =>
        rw [hleast] at hd
        cases hd
        exact hdepth
      | some least =>
        rw [hleast] at hd
        cases hd
        exact Nat.lt_of_le_of_lt (Nat.min_le_right least depth) hdepth
    next => exact h.shallow g d hd
  · intro g hg
    rcases List.mem_cons.mp hg with rfl | hg
    · rw [distance?_enter, if_pos rfl]
      rfl
    · exact hkept g (h.active g hg)

end Coverage.Maps

section Steps

variable {x : Executable} {limits : Limits} {m : Machine} {waiting : List Waiting}

/-- Entering a function maps it, if its depth is below the limit, and stops the run otherwise. -/
theorem enter_maps (h : m.Maps limits (waitingFunctions waiting)) (f : CompiledFunc)
    (args : List Int64) : (enter limits f args waiting m).Maps limits := by
  unfold enter
  split
  · exact fun c hc => (h c hc).mono (List.nil_subset _)
  · rename_i hdepth
    intro c hc
    obtain ⟨c, hc', rfl⟩ := Option.map_eq_some_iff.mp hc
    exact (h c hc').enter f.id (Nat.lt_of_not_le hdepth)

/-- A frame that is resumed is still one of the same function. -/
@[simp] theorem Frame.function_resume (frame : Frame) (dst : Option Register)
    (value : Option Int64) : (frame.resume dst value).function = frame.function := by
  cases dst <;> rfl

/-- Leaving a function keeps the functions mapped that wait. -/
theorem leave_maps (h : m.Maps limits (waitingFunctions waiting)) (value : Option Int64) :
    (leave value waiting m).Maps limits := by
  unfold leave
  split
  · exact h
  · intro c hc
    rw [Frame.function_resume]
    exact h c hc

/-- A step keeps all functions mapped that are under way. -/
theorem RunState.maps_step {c : RunState}
    (h : c.machine.Maps limits (c.frame.function.id :: waitingFunctions c.waiting)) :
    (c.step x limits).Maps limits := by
  obtain ⟨frame, waiting, m⟩ := c
  have hwaiting : ∀ {n : Machine},
      n.Maps limits (frame.function.id :: waitingFunctions waiting) →
        n.Maps limits (waitingFunctions waiting) :=
    fun hn c hc => (hn c hc).mono (List.subset_cons_self _ _)
  unfold step
  dsimp only
  split
  next i _ =>
    -- the site is recorded first, and its function is under way
    have hhit : (m.recordHit frame.site).Maps limits
        (frame.function.id :: waitingFunctions waiting) := by
      intro c hc
      obtain ⟨c, hc', rfl⟩ := Option.map_eq_some_iff.mp hc
      exact (h c hc').hit List.mem_cons_self
    have heffect := execute_effect x limits i frame waiting (m.recordHit frame.site)
    generalize execute x limits i frame waiting (m.recordHit frame.site) = next at heffect ⊢
    cases heffect with
    | goesOn frame' m' hfunction hcoverage =>
      intro c hc
      rw [hfunction]
      exact hhit c (hcoverage.symm.trans hc)
    | enters _ f args dst _ => exact enter_maps hhit f args
    | leaves value => exact leave_maps (hwaiting hhit) value
    | stops e => exact fun c hc => (hhit c hc).mono (List.nil_subset _)
  next => exact leave_maps (hwaiting h) none

/-- At the end of a run every executed site lies in a function with a known depth, and no depth
reaches the limit. -/
theorem RunState.maps_run {c : RunState}
    (h : c.machine.Maps limits (c.frame.function.id :: waitingFunctions c.waiting)) (n : Nat) :
    (c.run x limits n).machine.Maps limits [] := by
  refine run_invariant
    (P := fun c => c.machine.Maps limits (c.frame.function.id :: waitingFunctions c.waiting))
    (Q := fun m => m.Maps limits []) (fun c c' h hstep => ?_) (fun c e m h hstep => ?_)
    (fun c h c' hc => (h c' hc).mono (List.nil_subset _)) h n
  · have hmaps := maps_step (x := x) h
    rw [hstep] at hmaps
    exact hmaps
  · have hmaps := maps_step (x := x) h
    rw [hstep] at hmaps
    exact hmaps

end Steps

/-- A run on a machine whose record is as it should be leaves it so, whatever is run. -/
theorem Machine.invoke_maps {m : Machine} {limits : Limits} (h : m.Maps limits []) (x : Executable)
    (n : Nat) (id : FuncId) (args : List Int64) :
    (m.invoke x limits n id args).machine.Maps limits [] := by
  unfold invoke
  split
  next f _ =>
    have hmaps : (enter limits f args [] m).Maps limits := enter_maps h f args
    generalize enter limits f args [] m = p at hmaps ⊢
    cases p with
    | running c => exact RunState.maps_run hmaps n
    | ended e m => exact hmaps
  next => exact h

/-- The record of a fresh machine is as it should be. -/
theorem Machine.maps_fresh (limits : Limits) : (fresh limits true).Maps limits [] := by
  intro c hc
  cases hc
  exact ⟨nofun, nofun, nofun⟩

/-- The record of a test run knows a depth for the function of every executed site, and no depth
reaches the limit. -/
theorem endOfTest_maps (x : Executable) (limits : Limits) (entry : FuncId) (n : Nat) :
    (endOfTest x limits true entry n).machine.Maps limits [] :=
  Machine.invoke_maps (Machine.maps_fresh limits) x n entry []

end MutationTester
