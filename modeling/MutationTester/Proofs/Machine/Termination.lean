import MutationTester.Proofs.Machine.Guarded

/-!
# Code without backward jumps

Where all jumps of a program lead forward, every run ends by itself, though functions may call
themselves and each other (`Machine.forward_code_ends`): what stops them is the limit on nested
calls. A function then executes each of its instructions once at most, and each of them may make a
call, which bounds the steps of a call by those of the calls nested in it (`callSteps`). The
potential of a run counts so for all its frames. Each step makes it smaller
(`RunState.potential_step_lt`).
-/

set_option autoImplicit false

namespace MutationTester

/-! ## Forward jumps -/

/-- An instruction at an index that jumps to greater indexes only. -/
def Instruction.JumpsForward (i : Instruction) (n : Nat) : Prop :=
  ∀ target ∈ i.targets, n < target.toNat

instance (i : Instruction) (n : Nat) : Decidable (i.JumpsForward n) :=
  List.decidableBAll (fun target : UInt64 => n < target.toNat) i.targets

namespace Program

/-- All jumps of a program lead to greater indexes than their own. -/
def JumpsForward (p : Program) : Prop :=
  ∀ entry ∈ p.functions, ∀ place ∈ entry.2.body.zipIdx, place.1.JumpsForward place.2

instance (p : Program) : Decidable p.JumpsForward :=
  List.decidableBAll (fun entry : FuncId × Func =>
    ∀ place ∈ entry.2.body.zipIdx, place.1.JumpsForward place.2) p.functions

/-- The length of the longest body of a program. -/
def longestBody (p : Program) : Nat :=
  (p.functions.map fun entry => entry.2.body.length).max?.getD 0

end Program

/-- A function of limited length that only jumps forward. -/
structure CompiledFunc.Forward (length : Nat) (f : CompiledFunc) : Prop where
  size_le : f.code.size ≤ length
  jumpsForward : ∀ (n : Nat) (i : Instruction), f.code[n]? = some i → i.JumpsForward n

/-- The functions of a program that builds are no longer than its longest body, and only jump
forward if the program does. -/
theorem Program.Builds.forward {p : Program} {x : Executable} (hx : p.Builds x)
    (hforward : p.JumpsForward) {id : FuncId} {f : CompiledFunc} (hf : x.function? id = some f) :
    f.Forward p.longestBody := by
  rw [hx.function?_eq] at hf
  obtain ⟨g, hg, rfl⟩ := Option.map_eq_some_iff.mp hf
  have hmem := (p.mem_functions_iff id g).mpr hg
  constructor
  · apply List.le_max?_getD_of_mem
    exact List.mem_map.mpr ⟨(id, g), hmem, rfl⟩
  · intro n i hi
    have hplace : (i, n) ∈ g.body.zipIdx := by
      apply List.mem_zipIdx_iff_getElem?.mpr
      simpa [Func.lower] using hi
    exact hforward (id, g) hmem (i, n) hplace

/-! ## The functions that run -/

/-- A run all of whose frames are of functions with a property. -/
structure RunState.OnlyRuns (P : CompiledFunc → Prop) (c : RunState) : Prop where
  frame : P c.frame.function
  waiting : ∀ w ∈ c.waiting, P w.frame.function

/-- What a step leads to has only frames of functions with a property. -/
def Progress.OnlyRuns (P : CompiledFunc → Prop) : Progress → Prop
  | .running c => c.OnlyRuns P
  | .ended _ _ => True

section OnlyRuns

variable {P : CompiledFunc → Prop} {x : Executable} {limits : Limits} {waiting : List Waiting}
  {m : Machine}

theorem enter_onlyRuns {f : CompiledFunc} (hf : P f)
    (hwaiting : ∀ w ∈ waiting, P w.frame.function) (args : List Int64) :
    (enter limits f args waiting m).OnlyRuns P := by
  unfold enter
  split
  · trivial
  · exact ⟨hf, hwaiting⟩

theorem leave_onlyRuns (hwaiting : ∀ w ∈ waiting, P w.frame.function) (value : Option Int64) :
    (leave value waiting m).OnlyRuns P := by
  cases waiting with
  | nil => trivial
  | cons w rest =>
    obtain ⟨hw, hrest⟩ := List.forall_mem_cons.mp hwaiting
    refine ⟨?_, hrest⟩
    show P (w.frame.resume w.dst value).function
    cases w.dst <;> exact hw

/-- A run never gets beyond what holds of all functions of the executable. -/
theorem RunState.onlyRuns_step (hx : ∀ id f, x.function? id = some f → P f) {c : RunState}
    (h : c.OnlyRuns P) : (c.step x limits).OnlyRuns P := by
  obtain ⟨frame, waiting, m⟩ := c
  obtain ⟨hframe, hwaiting⟩ := h
  unfold step
  dsimp only
  split
  next i _ =>
    have heffect := execute_effect x limits i frame waiting (m.recordHit frame.site)
    generalize execute x limits i frame waiting (m.recordHit frame.site) = next at heffect ⊢
    cases heffect with
    | goesOn frame' m' hfunction _ =>
      refine ⟨?_, hwaiting⟩
      show P frame'.function
      rw [hfunction]
      exact hframe
    | enters callee f args dst hcallee =>
      obtain ⟨id, hid⟩ := Executable.exists_function?_of_resolve? hcallee
      apply enter_onlyRuns (hx id f hid)
      exact List.forall_mem_cons.mpr ⟨hframe, hwaiting⟩
    | leaves value => exact leave_onlyRuns hwaiting value
    | stops e => trivial
  next => exact leave_onlyRuns hwaiting none

end OnlyRuns

/-! ## The potential of a run -/

/-- The most steps that a call takes when no body is longer than `length`, by the number of calls
that may be nested, with itself. -/
def callSteps (length : Nat) : Nat → Nat
  | 0 => 0
  | depth + 1 => length * (1 + callSteps length depth)

/-- The most steps that are made in a frame from an index on, and in the calls that it makes, when
some frames wait below it. -/
def framePotential (limits : Limits) (length index below : Nat) : Nat :=
  (length - index) * (1 + callSteps length (limits.maxCallDepth - (below + 1)))

/-- The most steps that are made in the frames that wait, once they go on. -/
def waitingPotential (limits : Limits) (length : Nat) : List Waiting → Nat
  | [] => 0
  | w :: rest =>
    framePotential limits length (w.frame.counter + 1) rest.length +
      waitingPotential limits length rest

/-- The most steps that a run still makes. -/
def RunState.potential (limits : Limits) (length : Nat) (c : RunState) : Nat :=
  framePotential limits length c.frame.counter c.waiting.length +
    waitingPotential limits length c.waiting

/-- The most steps that are made after a step. -/
def Progress.potential (limits : Limits) (length : Nat) : Progress → Nat
  | .running c => c.potential limits length
  | .ended _ _ => 0

section Potential

variable {x : Executable} (limits : Limits) {length : Nat} {waiting : List Waiting} {m : Machine}

theorem framePotential_eq_add {index : Nat} (h : index < length) (below : Nat) :
    framePotential limits length index below =
      framePotential limits length (index + 1) below +
        (1 + callSteps length (limits.maxCallDepth - (below + 1))) := by
  -- an instruction takes its own step, and those of a call that goes as deep as it may
  unfold framePotential
  obtain ⟨k, hk⟩ : ∃ k, length - index = k + 1 := ⟨length - index - 1, by omega⟩
  have hk' : length - (index + 1) = k := by omega
  rw [hk, hk', Nat.succ_mul]

theorem framePotential_lt {index index' : Nat} (hlength : index < length) (h : index < index')
    (below : Nat) :
    framePotential limits length index' below < framePotential limits length index below := by
  have hle : framePotential limits length index' below ≤
      framePotential limits length (index + 1) below := by
    apply Nat.mul_le_mul_right
    omega
  rw [framePotential_eq_add limits hlength]
  omega

/-- A call that is made at an index of a frame takes no more than what is reserved for it there. -/
theorem potential_enter_lt {frame : Frame} (hframe : frame.counter < length) (f : CompiledFunc)
    (args : List Int64) (dst : Option Register) :
    (enter limits f args (⟨frame, dst⟩ :: waiting) m).potential limits length <
      framePotential limits length frame.counter waiting.length +
        waitingPotential limits length waiting := by
  rw [framePotential_eq_add limits hframe]
  unfold enter
  split
  next =>
    show 0 < _
    omega
  next hdepth =>
    rw [List.length_cons] at hdepth
    have hcall : framePotential limits length 0 (waiting.length + 1) =
        callSteps length (limits.maxCallDepth - (waiting.length + 1)) := by
      obtain ⟨k, hk⟩ : ∃ k, limits.maxCallDepth - (waiting.length + 1) = k + 1 :=
        ⟨limits.maxCallDepth - (waiting.length + 1) - 1, by omega⟩
      have hk' : limits.maxCallDepth - (waiting.length + 1 + 1) = k := by omega
      rw [framePotential, hk, hk', callSteps, Nat.sub_zero]
    show framePotential limits length 0 (waiting.length + 1) +
      (framePotential limits length (frame.counter + 1) waiting.length +
        waitingPotential limits length waiting) < _
    rw [hcall]
    omega

theorem potential_leave_le (value : Option Int64) :
    (leave value waiting m).potential limits length ≤ waitingPotential limits length waiting := by
  cases waiting with
  | nil => exact Nat.zero_le _
  | cons w rest =>
    obtain ⟨frame, dst⟩ := w
    cases dst <;> exact Nat.le_refl _

/-- A step of a sound run takes something from its potential, if the running function only jumps
forward. -/
theorem RunState.potential_step_lt {c : RunState} (hsound : c.Sound x)
    (hforward : c.frame.function.Forward length) :
    (c.step x limits).potential limits length < c.potential limits length := by
  obtain ⟨frame, waiting, m⟩ := c
  have hcounter : frame.counter < frame.function.code.size := hsound.frame.counter_lt
  have hlength : frame.counter < length := Nat.lt_of_lt_of_le hcounter hforward.size_le
  have hi := Array.getElem?_eq_getElem hcounter
  generalize frame.function.code[frame.counter] = i at hi
  unfold step
  dsimp only
  rw [hi]
  dsimp only
  have hmove := execute_move x limits i frame waiting (m.recordHit frame.site)
  generalize execute x limits i frame waiting (m.recordHit frame.site) = next at hmove ⊢
  show next.potential limits length < framePotential limits length frame.counter waiting.length +
    waitingPotential limits length waiting
  have hreserved := framePotential_eq_add limits hlength waiting.length
  cases hmove with
  | goesOn frame' m' _ _ hleads =>
    have hlater : frame.counter < frame'.counter := by
      generalize frame'.counter = next at hleads
      cases hleads with
      | next _ => exact Nat.lt_succ_self _
      | jump target htarget => exact hforward.jumpsForward _ i hi target htarget
    have hless := framePotential_lt limits hlength hlater waiting.length
    show framePotential limits length frame'.counter waiting.length +
      waitingPotential limits length waiting < _
    omega
  | enters dst callee args f values _ _ => exact potential_enter_lt limits hlength f values dst
  | leaves value =>
    have hle : (leave value waiting (m.recordHit frame.site)).potential limits length ≤
        waitingPotential limits length waiting := potential_leave_le limits value
    omega
  | stops e =>
    show 0 < _
    omega

end Potential

/-! ## Runs -/

section Runs

variable {x : Executable} {limits : Limits}

/-- No step ends a run as interrupted: only whoever watches a run does that. -/
theorem RunState.ending_ne_interrupted_of_step {c : RunState} {e : Ending} {m : Machine}
    (h : c.step x limits = .ended e m) : e ≠ .trapped .interrupted := by
  rintro rfl
  cases stepEnd_of_step h

/-- A run of functions that only jump forward ends by itself, after no more steps than its potential
says. -/
theorem RunState.exists_end {length : Nat} (hx : x.Sound)
    (hforward : ∀ id f, x.function? id = some f → f.Forward length) {c : RunState}
    (hsound : c.Sound x) (hruns : c.OnlyRuns (CompiledFunc.Forward length)) :
    ∃ n e m, n ≤ c.potential limits length ∧ e ≠ .trapped .interrupted ∧
      ∀ patience, n ≤ patience → c.run x limits patience = ⟨e, m, patience - n⟩ := by
  induction hpotential : c.potential limits length using Nat.strongRecOn
    generalizing c with
  | ind k ih =>
    have hless := potential_step_lt limits hsound hruns.frame
    have hguards : Progress.Guards x (c.guardedStep x limits) (c.step x limits) :=
      guards_step hx hsound
    have hkept : (c.step x limits).OnlyRuns (CompiledFunc.Forward length) :=
      onlyRuns_step hforward hruns
    cases hstep : c.step x limits with
    | running c' =>
      rw [hstep] at hless hguards hkept
      have hless : c'.potential limits length < k := hpotential ▸ hless
      obtain ⟨n, e, m, hn, he, hrun⟩ := ih _ hless hguards.sound hkept rfl
      refine ⟨n + 1, e, m, by omega, he, ?_⟩
      intro patience hpatience
      obtain ⟨patience, rfl⟩ : ∃ q, patience = q + 1 := ⟨patience - 1, by omega⟩
      rw [run_succ_of_running hstep, hrun patience (by omega), Nat.add_sub_add_right]
    | ended e m =>
      refine ⟨1, e, m, by omega, ending_ne_interrupted_of_step hstep, ?_⟩
      intro patience hpatience
      obtain ⟨patience, rfl⟩ : ∃ q, patience = q + 1 := ⟨patience - 1, by omega⟩
      rw [run_succ_of_ended hstep, Nat.add_sub_cancel]

end Runs

namespace Machine

/-- Recursion alone cannot hang a run. Let all jumps of a program that builds lead forward. Whatever
is invoked, with any arguments, on any machine and under any limits, the run comes to an end of its
own: there is a number of steps after which it has returned, failed an assertion or been stopped by
a trap, and whoever is as patient sees that end and is not asked for more. That number is bounded by
the length of the longest body and the number of calls that may be nested. -/
theorem forward_code_ends {p : Program} {x : Executable} (hx : p.Builds x)
    (hforward : p.JumpsForward) (limits : Limits) (m : Machine) (id : FuncId)
    (args : List Int64) :
    ∃ n e m', n ≤ callSteps p.longestBody limits.maxCallDepth ∧ e ≠ .trapped .interrupted ∧
      ∀ patience, n ≤ patience →
        m.invoke x limits patience id args = ⟨e, m', patience - n⟩ := by
  unfold invoke
  cases hf : x.function? id with
  | none => exact ⟨0, _, m, Nat.zero_le _, by simp, fun patience _ => rfl⟩
  | some f =>
    have hfunctions : ∀ id f, x.function? id = some f → f.Forward p.longestBody :=
      fun id f hf => hx.forward hforward hf
    dsimp only
    rcases enter_cases limits f args [] m with ⟨-, hentered⟩ | ⟨hdepth, hentered⟩
    · rw [hentered]
      exact ⟨0, _, m, Nat.zero_le _, by simp, fun patience _ => rfl⟩
    · let c : RunState := ⟨f.frame args, [], m.recordEntry f.id 0⟩
      have hdepth : 0 < limits.maxCallDepth := hdepth
      have hsound : c.Sound x := ⟨(hx.sound id f hf).frame args, List.forall_mem_nil _⟩
      have hruns : c.OnlyRuns (CompiledFunc.Forward p.longestBody) :=
        ⟨hfunctions id f hf, List.forall_mem_nil _⟩
      have hpotential : c.potential limits p.longestBody =
          callSteps p.longestBody limits.maxCallDepth := by
        obtain ⟨depth, hk⟩ : ∃ k, limits.maxCallDepth = k + 1 :=
          ⟨limits.maxCallDepth - 1, by omega⟩
        show framePotential limits p.longestBody 0 0 + 0 = _
        rw [framePotential, hk, callSteps]
        rfl
      rw [hentered, ← hpotential]
      exact RunState.exists_end hx.sound hfunctions hsound hruns

/-- A program with two functions that call each other twice, whatever they are given. -/
def callingProgram : Program where
  modules :=
    [⟨"lib", [⟨"ping", 1, [.branch 0 1 2, .nop, .call (some 0) "pong" [0], .call none "pong" [0],
        .ret none]⟩,
      ⟨"pong", 1, [.call none "ping" [0], .call none "ping" [0], .jump 3, .ret (some 0)]⟩]⟩]

/-- What the program builds to. -/
def callingExecutable : Executable where
  modules := callingProgram.lower
  symbols := [("pong", ⟨0, 1⟩), ("ping", ⟨0, 0⟩)]

/-- The two functions call each other until they are stopped by the limit. -/
theorem endless_calls_are_stopped :
    callingProgram.Builds callingExecutable ∧ callingProgram.JumpsForward ∧
      ∃ n e m', n ≤ callSteps 5 3 ∧ e = .trapped (.stackOverflow "pong") ∧
        ∀ patience, n ≤ patience →
          (fresh ⟨3, 0, 0, none⟩ false).invoke callingExecutable ⟨3, 0, 0, none⟩ patience ⟨0, 0⟩ [0] =
            ⟨e, m', patience - n⟩ := by
  have hbuilds : callingProgram.Builds callingExecutable := rfl
  have hforward : callingProgram.JumpsForward := by decide
  obtain ⟨n, e, m', hn, -, hrun⟩ :=
    forward_code_ends hbuilds hforward ⟨3, 0, 0, none⟩ (fresh ⟨3, 0, 0, none⟩ false) ⟨0, 0⟩ [0]
  have hending : ((fresh ⟨3, 0, 0, none⟩ false).invoke callingExecutable ⟨3, 0, 0, none⟩ 155 ⟨0, 0⟩
      [0]).ending = .trapped (.stackOverflow "pong") := by
    decide +kernel
  rw [hrun 155 hn] at hending
  exact ⟨hbuilds, hforward, n, e, m', hn, hending, hrun⟩

end Machine

end MutationTester
