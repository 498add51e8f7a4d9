import MutationTester.Proofs.Build.Soundness
import MutationTester.Proofs.Machine.Depths

/-!
# Coverage records are traces

The record of a run can be read as a trace of it, though it is only a set: every function but the
one that the run began in was called by an executed instruction of a function that is less deep, and
every site but the first of its function was come to from an executed one (`Coverage.Traces`). While
the run is under way its frames are tied to the record: the function of each is known to be no
deeper than the frame, the running frame has been led to its site, and the frames that wait have
executed their calls (`RunState.Traces`). What ties them lasts, since records only grow
(`Coverage.Grows`).
-/

set_option autoImplicit false

namespace MutationTester

/-! ## What a record says of a run -/

namespace Executable

/-- The instruction at a site. -/
def instruction? (x : Executable) (s : Site) : Option Instruction :=
  x.function? s.funcId >>= fun f => f.code[s.index]?

/-- The instruction at a site calls a function. -/
def CallsAt (x : Executable) (s : Site) (callee : FuncId) : Prop :=
  ∃ dst name args f, x.instruction? s = some (.call dst name args) ∧ x.resolve? name = some f ∧
    f.id = callee

/-- The instruction at one site of a function may lead to another site of it. -/
def LeadsTo (x : Executable) (s t : Site) : Prop :=
  s.funcId = t.funcId ∧ ∃ i, x.instruction? s = some i ∧ i.LeadsTo s.index t.index

/-- Every function has the position that it says. -/
def PositionsAgree (x : Executable) : Prop := ∀ id f, x.function? id = some f → f.id = id

theorem instruction?_site {x : Executable} {f : CompiledFunc} (hf : x.function? f.id = some f)
    (n : Nat) : x.instruction? (f.id.site n) = f.code[n]? := by
  show x.function? f.id >>= _ = _
  rw [hf]
  rfl

end Executable

/-- The functions of a program that builds have the positions that they say. -/
theorem Program.Builds.positionsAgree {p : Program} {x : Executable} (h : p.Builds x) :
    x.PositionsAgree := by
  intro id f hf
  rw [h.function?_eq] at hf
  obtain ⟨g, -, rfl⟩ := Option.map_eq_some_iff.mp hf
  rfl

namespace Coverage

/-- A record is a trace of a run that began in a function. That function has depth zero, and what is
executed are instructions. Every other function with a depth is called at an executed site of a
function with a smaller one, and a site that is not the first of its function is one that an executed
site leads to. -/
structure Traces (x : Executable) (entry : FuncId) (c : Coverage) : Prop where
  begins : c.distance? entry = some 0
  executed : ∀ s, c.isExecuted s = true → (x.instruction? s).isSome = true
  called : ∀ f d, c.distance? f = some d → f ≠ entry → ∃ s d', c.isExecuted s = true ∧
    x.CallsAt s f ∧ c.distance? s.funcId = some d' ∧ d' < d
  reached : ∀ s, c.isExecuted s = true → s.index ≠ 0 → ∃ r, c.isExecuted r = true ∧ x.LeadsTo r s

/-- A later record has at least what an earlier one has, and no greater depths. -/
structure Grows (c c' : Coverage) : Prop where
  executed : ∀ s, c.isExecuted s = true → c'.isExecuted s = true
  nearer : ∀ f d, c.distance? f = some d → ∃ d', c'.distance? f = some d' ∧ d' ≤ d

theorem grows_hit (c : Coverage) (s : Site) : c.Grows (c.hit s) where
  executed t ht := by simp [isExecuted_hit, ht]
  nearer f d hd := ⟨d, hd, Nat.le_refl d⟩

theorem grows_enter (c : Coverage) (f : FuncId) (depth : Nat) : c.Grows (c.enter f depth) where
  executed _ hs := hs
  nearer g d hd := by
    rw [distance?_enter]
    split
    next hg =>
      subst hg
      rw [hd]
      exact ⟨min d depth, rfl, Nat.min_le_left d depth⟩
    next => exact ⟨d, hd, Nat.le_refl d⟩

/-- A depth after an entry is an earlier one, or that of the entry. -/
theorem distance?_enter_cases {c : Coverage} {f g : FuncId} {depth d : Nat}
    (h : (c.enter f depth).distance? g = some d) :
    c.distance? g = some d ∨ g = f ∧ d = depth := by
  rw [distance?_enter] at h
  split at h
  next hg =>
    subst hg
    cases hleast : c.distance? g with
    | none =>
      rw [hleast] at h
      cases h
      exact .inr ⟨rfl, rfl⟩
    | some least =>
      rw [hleast] at h
      cases h
      rcases Nat.le_total least depth with hle | hle
      · exact .inl (congrArg some (Nat.min_eq_left hle).symm)
      · exact .inr ⟨rfl, Nat.min_eq_right hle⟩
  next => exact .inl h

namespace Traces

variable {x : Executable} {entry : FuncId} {c : Coverage}

/-- When a run begins, the function that it begins in is all that is recorded. -/
theorem enter_empty (x : Executable) (entry : FuncId) : (empty.enter entry 0).Traces x entry := by
  refine ⟨?_, nofun, ?_, nofun⟩
  · rw [distance?_enter, if_pos rfl]
    rfl
  · intro f d hd hne
    rcases distance?_enter_cases hd with hd | ⟨hf, -⟩
    · cases hd
    · exact absurd hf hne

/-- Executing an instruction keeps a trace, if it is the first of its function or was led to. -/
theorem hit (h : c.Traces x entry) {s : Site} (hs : (x.instruction? s).isSome = true)
    (hled : s.index ≠ 0 → ∃ r, c.isExecuted r = true ∧ x.LeadsTo r s) :
    (c.hit s).Traces x entry := by
  have hgrows := c.grows_hit s
  have hcases : ∀ t, (c.hit s).isExecuted t = true → t = s ∨ c.isExecuted t = true := by
    intro t ht
    simpa [isExecuted_hit] using ht
  refine ⟨h.begins, ?_, ?_, ?_⟩
  · intro t ht
    rcases hcases t ht with rfl | ht
    · exact hs
    · exact h.executed t ht
  · intro f d hd hne
    obtain ⟨t, d', ht, hcalls, hd', hlt⟩ := h.called f d hd hne
    exact ⟨t, d', hgrows.executed t ht, hcalls, hd', hlt⟩
  · intro t ht hindex
    have hbefore : ∃ r, c.isExecuted r = true ∧ x.LeadsTo r t := by
      rcases hcases t ht with rfl | ht
      · exact hled hindex
      · exact h.reached t ht hindex
    obtain ⟨r, hr, hleads⟩ := hbefore
    exact ⟨r, hgrows.executed r hr, hleads⟩

/-- Entering a function keeps a trace, if it is called at an executed site of a function that is less
deep. -/
theorem enter (h : c.Traces x entry) {f : FuncId} {depth : Nat}
    (hcalled : ∃ s d, c.isExecuted s = true ∧ x.CallsAt s f ∧ c.distance? s.funcId = some d ∧
      d < depth) : (c.enter f depth).Traces x entry := by
  have hgrows := c.grows_enter f depth
  refine ⟨?_, h.executed, ?_, h.reached⟩
  · obtain ⟨d, hd, hle⟩ := hgrows.nearer entry 0 h.begins
    rw [hd, Nat.le_zero.mp hle]
  · intro g d hd hne
    -- the caller of an earlier entry is at most as deep as it was, and so is that of this one
    have hbefore : ∃ s d', c.isExecuted s = true ∧ x.CallsAt s g ∧
        c.distance? s.funcId = some d' ∧ d' < d := by
      rcases distance?_enter_cases hd with hd | ⟨rfl, rfl⟩
      · exact h.called g d hd hne
      · exact hcalled
    obtain ⟨s, d', hs, hcalls, hd', hlt⟩ := hbefore
    obtain ⟨d'', hd'', hle⟩ := hgrows.nearer _ d' hd'
    exact ⟨s, d'', hs, hcalls, hd'', Nat.lt_of_le_of_lt hle hlt⟩

end Traces

end Coverage

/-! ## The frames of a run -/

/-- A frame of a function of the executable, for which the record knows a depth that is not below
its own. -/
structure Frame.Known (x : Executable) (c : Coverage) (depth : Nat) (frame : Frame) : Prop where
  function : x.function? frame.function.id = some frame.function
  near : ∃ d, c.distance? frame.function.id = some d ∧ d ≤ depth

/-- The running frame is at the beginning of its function, or an executed site has led it on. -/
def Frame.Led (x : Executable) (c : Coverage) (frame : Frame) : Prop :=
  frame.counter ≠ 0 → ∃ r, c.isExecuted r = true ∧ x.LeadsTo r frame.site

/-- A frame that waits is at an executed call. -/
def Frame.Calling (x : Executable) (c : Coverage) (frame : Frame) : Prop :=
  c.isExecuted frame.site = true ∧
    ∃ dst name args, x.instruction? frame.site = some (.call dst name args)

/-- The frames that wait are known, each with the number of frames below it, and at their calls. -/
def WaitingTraced (x : Executable) (c : Coverage) : List Waiting → Prop
  | [] => True
  | w :: rest => (w.frame.Known x c rest.length ∧ w.frame.Calling x c) ∧ WaitingTraced x c rest

/-- A run under way whose record is a trace that the frames are tied to. -/
structure RunState.Traces (x : Executable) (entry : FuncId) (c : Coverage)
    (st : RunState) : Prop where
  recorded : st.machine.coverage = some c
  trace : c.Traces x entry
  known : st.frame.Known x c st.waiting.length
  led : st.frame.Led x c
  waiting : WaitingTraced x c st.waiting

/-- What a step leads to has a record that is a trace. -/
def Progress.Traces (x : Executable) (entry : FuncId) : Progress → Prop
  | .running st => ∃ c, st.Traces x entry c
  | .ended _ m => ∃ c, m.coverage = some c ∧ c.Traces x entry

section Growing

variable {x : Executable} {c c' : Coverage} {frame : Frame} {depth : Nat}

theorem Frame.Known.grow (h : frame.Known x c depth) (hgrows : c.Grows c') :
    frame.Known x c' depth := by
  obtain ⟨d, hd, hle⟩ := h.near
  obtain ⟨d', hd', hle'⟩ := hgrows.nearer _ d hd
  exact ⟨h.function, d', hd', Nat.le_trans hle' hle⟩

/-- Whether a frame is known depends on its function alone. -/
theorem Frame.Known.of_function_eq (h : frame.Known x c depth) {frame' : Frame}
    (hfunction : frame'.function = frame.function) : frame'.Known x c depth := by
  obtain ⟨hself, hnear⟩ := h
  rw [← hfunction] at hself hnear
  exact ⟨hself, hnear⟩

theorem Frame.Calling.grow (h : frame.Calling x c) (hgrows : c.Grows c') : frame.Calling x c' :=
  ⟨hgrows.executed _ h.1, h.2⟩

theorem waitingTraced_grow {waiting : List Waiting} (h : WaitingTraced x c waiting)
    (hgrows : c.Grows c') : WaitingTraced x c' waiting := by
  induction waiting with
  | nil => trivial
  | cons w rest ih =>
    obtain ⟨⟨hknown, hcalling⟩, hrest⟩ := h
    exact ⟨⟨hknown.grow hgrows, hcalling.grow hgrows⟩, ih hrest⟩

end Growing

/-! ## Steps -/

section Steps

variable {x : Executable} {limits : Limits} {entry : FuncId} {c : Coverage} {frame : Frame}
  {waiting : List Waiting} {m : Machine}

/-- A frame that goes on in its function is led by the site that it was at. -/
theorem Frame.Known.led_of_leadsTo {depth : Nat} (h : frame.Known x c depth)
    (hexecuted : c.isExecuted frame.site = true) {i : Instruction}
    (hi : frame.function.code[frame.counter]? = some i) {frame' : Frame}
    (hfunction : frame'.function = frame.function)
    (hleads : i.LeadsTo frame.counter frame'.counter) : frame'.Led x c := by
  intro _
  refine ⟨frame.site, hexecuted, ?_, i, ?_, hleads⟩
  · show frame.function.id = frame'.function.id
    rw [hfunction]
  · exact (Executable.instruction?_site h.function _).trans hi

/-- Entering a function from a frame at an executed call of it keeps the trace, or stops the run for
being too deep. -/
theorem enter_traces (hx : x.PositionsAgree) (hrecorded : m.coverage = some c)
    (htrace : c.Traces x entry) {w : Waiting} (hwaiting : WaitingTraced x c (w :: waiting))
    {f : CompiledFunc} {name : String} (hname : x.resolve? name = some f)
    (hcall : x.CallsAt w.frame.site f.id) (args : List Int64) :
    (enter limits f args (w :: waiting) m).Traces x entry := by
  obtain ⟨⟨hknown, hcalling⟩, -⟩ := id hwaiting
  unfold enter
  split
  next => exact ⟨c, hrecorded, htrace⟩
  next =>
    obtain ⟨d, hd, hle⟩ := hknown.near
    have htrace' : (c.enter f.id (w :: waiting).length).Traces x entry := by
      refine htrace.enter ⟨w.frame.site, d, hcalling.1, hcall, hd, ?_⟩
      rw [List.length_cons]
      omega
    obtain ⟨id, hid⟩ := Executable.exists_function?_of_resolve? hname
    refine ⟨_, by simp [hrecorded], htrace', ⟨?_, ?_⟩, fun hne => absurd rfl hne,
      waitingTraced_grow hwaiting (c.grows_enter _ _)⟩
    · show x.function? f.id = some f
      rw [hx id f hid, hid]
    · show ∃ d, (c.enter f.id (w :: waiting).length).distance? f.id = some d ∧ _
      rw [Coverage.distance?_enter, if_pos rfl]
      refine ⟨_, rfl, ?_⟩
      split
      · exact Nat.min_le_right _ _
      · exact Nat.le_refl _

/-- Leaving a function for the frame that has called it keeps the trace: control goes on after the
call. -/
theorem leave_traces (hrecorded : m.coverage = some c) (htrace : c.Traces x entry)
    (hwaiting : WaitingTraced x c waiting) (value : Option Int64) :
    (leave value waiting m).Traces x entry := by
  unfold leave
  cases waiting with
  | nil => exact ⟨c, hrecorded, htrace⟩
  | cons w rest =>
    obtain ⟨⟨hknown, hexecuted, dst, name, args, hcall⟩, hrest⟩ := hwaiting
    have hfunction : (w.frame.resume w.dst value).function = w.frame.function := by
      cases w.dst <;> rfl
    have hcounter : (w.frame.resume w.dst value).counter = w.frame.counter + 1 := by
      cases w.dst <;> rfl
    refine ⟨c, hrecorded, htrace, hknown.of_function_eq hfunction, ?_, hrest⟩
    refine hknown.led_of_leadsTo hexecuted
      ((Executable.instruction?_site hknown.function _).symm.trans hcall) hfunction ?_
    rw [hcounter]
    exact .next rfl

/-- A step keeps the trace. -/
theorem RunState.traces_step (limits : Limits) (hx : x.PositionsAgree) {st : RunState}
    (h : st.Traces x entry c) : (st.step x limits).Traces x entry := by
  obtain ⟨frame, waiting, m⟩ := st
  obtain ⟨hrecorded, htrace, hknown, hled, hwaiting⟩ := h
  dsimp only at hrecorded hknown hled hwaiting
  unfold step
  dsimp only
  split
  next i hi =>
    -- the site is recorded first, so what follows finds it executed
    have hinstruction : x.instruction? frame.site = some i :=
      (Executable.instruction?_site hknown.function _).trans hi
    have hgrows := c.grows_hit frame.site
    have htrace : (c.hit frame.site).Traces x entry :=
      htrace.hit (Option.isSome_of_eq_some hinstruction) hled
    have hrecorded : (m.recordHit frame.site).coverage = some (c.hit frame.site) := by
      simp [hrecorded]
    have hexecuted : (c.hit frame.site).isExecuted frame.site = true := by
      simp [Coverage.isExecuted_hit]
    have hknown := hknown.grow hgrows
    have hwaiting := waitingTraced_grow hwaiting hgrows
    have hmove := execute_move x limits i frame waiting (m.recordHit frame.site)
    generalize execute x limits i frame waiting (m.recordHit frame.site) = next at hmove ⊢
    cases hmove with
    | goesOn frame' m' hfunction hcoverage hleads =>
      exact ⟨_, hcoverage.trans hrecorded, htrace, hknown.of_function_eq hfunction,
        hknown.led_of_leadsTo hexecuted hi hfunction hleads, hwaiting⟩
    | enters dst callee args f values hcall hcallee =>
      subst hcall
      have hcalling : frame.Calling x (c.hit frame.site) :=
        ⟨hexecuted, dst, callee, args, hinstruction⟩
      exact enter_traces hx hrecorded htrace ⟨⟨hknown, hcalling⟩, hwaiting⟩ hcallee
        ⟨dst, callee, args, f, hinstruction, hcallee, rfl⟩ values
    | leaves value => exact leave_traces hrecorded htrace hwaiting value
    | stops e => exact ⟨_, hrecorded, htrace⟩
  next => exact leave_traces hrecorded htrace hwaiting none

end Steps

/-! ## Runs -/

section Runs

variable {x : Executable} {limits : Limits} {entry : FuncId}

/-- At the end of a run, however it ends, the record is a trace. -/
theorem RunState.traces_run (hx : x.PositionsAgree) {st : RunState} {c : Coverage}
    (h : st.Traces x entry c) (n : Nat) :
    ∃ c, (st.run x limits n).machine.coverage = some c ∧ c.Traces x entry := by
  refine run_invariant (P := fun st => ∃ c, st.Traces x entry c)
    (Q := fun m => ∃ c, m.coverage = some c ∧ c.Traces x entry) ?_ ?_ ?_ ⟨c, h⟩ n
  · intro st st' h hstep
    obtain ⟨c, h⟩ := h
    have htraces := traces_step limits hx h
    rw [hstep] at htraces
    exact htraces
  · intro st e m h hstep
    obtain ⟨c, h⟩ := h
    have htraces := traces_step limits hx h
    rw [hstep] at htraces
    exact htraces
  · intro st h
    obtain ⟨c, h⟩ := h
    exact ⟨c, h.recorded, h.trace⟩

end Runs

namespace Machine

/-- The record of a function that is run on a fresh machine is a trace. -/
theorem traces_invoke {x : Executable} (hx : x.PositionsAgree) {limits : Limits}
    (hlimits : 0 < limits.maxCallDepth) {id : FuncId} {f : CompiledFunc}
    (hf : x.function? id = some f) (args : List Int64) (n : Nat) :
    ∃ c, ((fresh limits true).invoke x limits n id args).machine.coverage = some c ∧
      c.Traces x id := by
  have hid : f.id = id := hx id f hf
  have hstart : RunState.Traces x id (Coverage.empty.enter id 0)
      ⟨f.frame args, [], (fresh limits true).recordEntry f.id 0⟩ := by
    refine ⟨by rw [hid]; rfl, .enter_empty x id, ⟨?_, 0, ?_, Nat.le_refl 0⟩,
      fun hne => absurd rfl hne, trivial⟩
    · show x.function? f.id = some f
      rw [hid, hf]
    · show (Coverage.empty.enter id 0).distance? f.id = some 0
      rw [hid]
      exact (Coverage.Traces.enter_empty x id).begins
  have hentered : MutationTester.enter limits f args [] (fresh limits true) =
      .running ⟨f.frame args, [], (fresh limits true).recordEntry f.id 0⟩ :=
    if_neg (Nat.not_le_of_lt hlimits)
  unfold invoke
  rw [hf]
  dsimp only
  rw [hentered]
  exact RunState.traces_run hx hstart n

/-- The record of a run is a faithful trace of it. When anything is invoked on a fresh machine with
the linked code of a program that builds, and however the run ends and whenever it is interrupted,
there is a record. A function that the run begins in has depth zero. What is executed is an
instruction, and there is a depth for its function. All depths are below the limit. Every other
function with a depth is called at an executed site of a function with a smaller one. And a site that
is not the first of its function is the one after an executed instruction that control passes, or a
target of an executed jump. -/
theorem record_traces_run {p : Program} {x : Executable} (hx : p.Builds x) {limits : Limits}
    (hlimits : 0 < limits.maxCallDepth) (id : FuncId) (args : List Int64) (patience : Nat) :
    ∃ c, ((fresh limits true).invoke x limits patience id args).machine.coverage = some c ∧
      ((x.function? id).isSome = true → c.distance? id = some 0) ∧
      (∀ s, c.isExecuted s = true →
        (x.instruction? s).isSome = true ∧ (c.distance? s.funcId).isSome = true) ∧
      (∀ f d, c.distance? f = some d → d < limits.maxCallDepth) ∧
      (∀ f d, c.distance? f = some d → f ≠ id → ∃ s d', c.isExecuted s = true ∧ x.CallsAt s f ∧
        c.distance? s.funcId = some d' ∧ d' < d) ∧
      ∀ s, c.isExecuted s = true → s.index ≠ 0 → ∃ r, c.isExecuted r = true ∧ x.LeadsTo r s := by
  have hmaps := invoke_maps (maps_fresh limits) x patience id args
  cases hf : x.function? id with
  | none =>
    have hnothing : ((fresh limits true).invoke x limits patience id args).machine.coverage =
        some .empty := by
      unfold invoke
      rw [hf]
      rfl
    exact ⟨_, hnothing, nofun, nofun, nofun, nofun, nofun⟩
  | some f =>
    obtain ⟨c, hc, htraces⟩ := traces_invoke hx.positionsAgree hlimits hf args patience
    obtain ⟨hentered, hshallow, -⟩ := hmaps c hc
    refine ⟨c, hc, fun _ => htraces.begins, ?_, hshallow, htraces.called, htraces.reached⟩
    intro s hs
    exact ⟨htraces.executed s hs, hentered s hs⟩

/-- A program with a test that calls a function by way of another one, which aborts on zero. -/
def abortingProgram : Program where
  modules :=
    [⟨"lib", [⟨"inner", 1, [.branch 0 1 2, .ret (some 0), .abort]⟩,
        ⟨"outer", 1, [.call (some 1) "inner" [0], .ret (some 1)]⟩]⟩,
      ⟨"tests", [⟨"test_outer", 0, [.const 0 0, .call none "outer" [0], .ret none]⟩]⟩]

/-- What the program builds to. -/
def abortingExecutable : Executable where
  modules := abortingProgram.lower
  symbols := [("test_outer", ⟨1, 0⟩), ("outer", ⟨0, 1⟩), ("inner", ⟨0, 0⟩)]

/-- The run that is aborted two calls deep has recorded who called there, and from where it came to
the instruction that aborts. -/
theorem aborted_run_is_traced :
    abortingProgram.Builds abortingExecutable ∧ 0 < ({} : Limits).maxCallDepth ∧
      ∃ c, ((fresh {} true).invoke abortingExecutable {} 9 ⟨1, 0⟩ []).ending =
          .trapped (.abort "inner" 2) ∧
        ((fresh {} true).invoke abortingExecutable {} 9 ⟨1, 0⟩ []).machine.coverage = some c ∧
        c.distance? ⟨1, 0⟩ = some 0 ∧
        (∃ s d, c.isExecuted s = true ∧ abortingExecutable.CallsAt s ⟨0, 0⟩ ∧
          c.distance? s.funcId = some d ∧ d < 2) ∧
        ∃ r, c.isExecuted r = true ∧ abortingExecutable.LeadsTo r ⟨0, 0, 2⟩ := by
  have hbuilds : abortingProgram.Builds abortingExecutable := rfl
  have hlimits : 0 < ({} : Limits).maxCallDepth := by decide
  obtain ⟨c, hc, hbegins, -, -, hcalled, hreached⟩ :=
    record_traces_run hbuilds hlimits ⟨1, 0⟩ [] 9
  have hdepth : (((fresh {} true).invoke abortingExecutable {} 9 ⟨1, 0⟩ []).machine.coverage.bind
      (·.distance? ⟨0, 0⟩)) = some 2 := by decide +kernel
  have hexecuted : (((fresh {} true).invoke abortingExecutable {} 9 ⟨1, 0⟩ []).machine.coverage.map
      (·.isExecuted ⟨0, 0, 2⟩)) = some true := by decide +kernel
  rw [hc] at hdepth hexecuted
  exact ⟨hbuilds, hlimits, c, by decide +kernel, hc, hbegins rfl,
    hcalled ⟨0, 0⟩ 2 hdepth (by decide), hreached ⟨0, 0, 2⟩ (Option.some.inj hexecuted) (by decide)⟩

end Machine

end MutationTester
