import MutationTester.CommandLine.Execution
import MutationTester.Proofs.Storage.StateFile
import MutationTester.Proofs.Testing.Results

/-!
# Sessions

A session is a row of commands in one directory, between which other files may change. What a run
comes to follows from what can be read before it (`RunSettings.outcome`), and only a run that reports
writes, and nothing but the state file (`RunSettings.execute_eq`). So at any time in a session the
state file holds the last report there has been (`Session.loadReport?_eq`), and that is what the
command that sums up tells (`tells_last_report`).
-/

set_option autoImplicit false

namespace MutationTester

variable {ω : Type}

/-! ## Looking at files -/

section Looking

/-- The action leaves the world as it is. -/
def LooksOnly {α : Type} (a : ExceptT Failure (StateM ω) α) : Prop := ∀ w, (a.run w).2 = w

theorem looksOnly_pure {α : Type} (a : α) :
    LooksOnly (pure a : ExceptT Failure (StateM ω) α) := fun _ => rfl

theorem LooksOnly.bind {α β : Type} {a : ExceptT Failure (StateM ω) α}
    {f : α → ExceptT Failure (StateM ω) β} (ha : LooksOnly a) (hf : ∀ x, LooksOnly (f x)) :
    LooksOnly (a >>= f) := by
  intro w
  have ha := ha w
  rw [ExceptT.run_bind, bind_apply, ha]
  cases (a.run w).1 with
  | ok x => exact hf x w
  | error e => rfl

theorem looksOnly_mapM {α β : Type} {f : α → ExceptT Failure (StateM ω) β}
    (hf : ∀ x, LooksOnly (f x)) (xs : List α) : LooksOnly (xs.mapM f) := by
  induction xs with
  | nil => exact looksOnly_pure []
  | cons x xs ih =>
    rw [List.mapM_cons]
    exact (hf x).bind fun y => ih.bind fun ys => looksOnly_pure (y :: ys)

end Looking

namespace FileSystem

variable {fs : FileSystem (StateM ω)} {sound : ω → Prop}

theorem KeepsStateFile.looksOnly_loadText (h : fs.KeepsStateFile sound) (p : Path) :
    LooksOnly (fs.loadText p) := by
  intro w
  rw [fs.run_loadText, map_apply]
  exact h.read_snd p w

theorem KeepsStateFile.looksOnly_loadModule (h : fs.KeepsStateFile sound) (p : Path) :
    LooksOnly (fs.loadModule p) := by
  intro w
  rw [Module.run_loadModule, map_apply]
  exact h.read_snd p w

end FileSystem

namespace CommandLine

/-! ## Replies -/

theorem lines_singleton (code : Nat) (line : String) :
    Reply.lines code [line] = ⟨code, line ++ "\n", ""⟩ := by
  unfold Reply.lines Display.unlines
  simp [String.join]

/-- A run that fails says so with its exit code. -/
theorem exitCode_cases (e : Failure) : exitCode e = 2 ∨ exitCode e = 3 := by
  cases e with
  | moduleLoad path reason => exact .inl rfl
  | build reason => exact .inr rfl
  | noTests testPrefix => exact .inl rfl
  | workerDied phase worker => exact .inr rfl
  | stateAccess path reason => exact .inr rfl

theorem unbegunReply_code (v : Violation) :
    (unbegunReply v).code = 101 ∨ (unbegunReply v).code = 134 := by
  unfold unbegunReply
  split
  · exact .inr rfl
  · exact .inl rfl

/-- The exit code of a run that reports does not depend on how it reports. -/
theorem runReply_code (styled : Bool) (s : RunSettings) (r : Report) :
    (runReply styled s r).code = if 0 < r.survived then 1 else 0 := by
  unfold runReply
  dsimp only
  split
  · rfl
  · split <;> rfl

/-! ## Runs -/

/-- What a run comes to. -/
inductive RunOutcome
  /-- The program cannot be loaded, or the campaign fails. -/
  | failed (reason : Failure)
  | noModules
  /-- There is no room for the workers. -/
  | unbegun (v : Violation)
  | reported (r : Report)

/-- The report that a run has come to, if any. -/
def RunOutcome.report? : RunOutcome → Option Report
  | reported r => some r
  | _ => none

/-- What is said of what a run has come to. -/
def RunOutcome.reply (styled : Bool) (s : RunSettings) : RunOutcome → Reply
  | failed e => .error styled (exitCode e) e.message
  | noModules => .error styled 2 "No modules given. Pass module files or --list <file>."
  | unbegun v => unbegunReply v
  | reported r => runReply styled s r

/-- What a run comes to, given what can be read before it. -/
def RunSettings.outcome (fs : FileSystem (StateM ω)) (defaults : Config) (s : RunSettings)
    (w : ω) : RunOutcome :=
  match ((s.loadProgram fs).run w).1 with
  | .error e => .failed e
  | .ok none => .noModules
  | .ok (some p) =>
    match s.campaign defaults p with
    | .error v => .unbegun v
    | .ok (.error e) => .failed e
    | .ok (.ok r) => .reported r

/-- The report that a command produces, if it is a run that comes to one. -/
def report? (fs : FileSystem (StateM ω)) (defaults : Config) (environment : Environment)
    (args : List String) (w : ω) : Option Report :=
  match Command.parse environment args with
  | .ok (.run s) => (s.outcome fs defaults w).report?
  | _ => none

section Execution

variable {fs : FileSystem (StateM ω)} {sound : ω → Prop}

theorem looksOnly_loadProgram (h : fs.KeepsStateFile sound) (s : RunSettings) :
    LooksOnly (s.loadProgram fs) := by
  have hprogram (paths : List Path) : LooksOnly (fs.loadProgram paths) :=
    (looksOnly_mapM h.looksOnly_loadModule paths).bind fun ms => looksOnly_pure _
  have hread (list : Path) : LooksOnly (fs.loadModuleList list) :=
    (h.looksOnly_loadText list).bind fun text => looksOnly_pure _
  unfold RunSettings.loadProgram
  cases s.list with
  | none =>
    refine (looksOnly_pure []).bind fun listed => ?_
    dsimp only
    cases s.modules ++ listed with
    | nil => exact looksOnly_pure none
    | cons p paths => exact (hprogram (p :: paths)).bind fun p => looksOnly_pure _
  | some list =>
    refine (hread list).bind fun listed => ?_
    dsimp only
    cases s.modules ++ listed with
    | nil => exact looksOnly_pure none
    | cons p paths => exact (hprogram (p :: paths)).bind fun p => looksOnly_pure _

/-- A run says what it has come to, and writes nothing but its report. -/
theorem RunSettings.execute_eq (h : fs.KeepsStateFile sound) (context : Context)
    (s : RunSettings) (w : ω) :
    s.execute fs context w =
      ((s.outcome fs context.defaults w).reply context.styled s,
        match (s.outcome fs context.defaults w).report? with
        | some r => (fs.write stateFile r.toJson.toText.toUTF8 w).2
        | none => w) := by
  have hlooks := looksOnly_loadProgram h s w
  unfold execute outcome
  rw [bind_apply, hlooks]
  rcases ((s.loadProgram fs).run w).1 with e | _ | p
  · rfl
  · rfl
  · dsimp only
    rcases s.campaign context.defaults p with v | e | r
    · rfl
    · rfl
    · dsimp only
      rw [bind_apply, fs.run_saveReport_snd]
      rfl

theorem RunSettings.exists_campaign_of_outcome (s : RunSettings) {defaults : Config} {r : Report}
    {w : ω} (h : s.outcome fs defaults w = .reported r) : ∃ p, s.campaign defaults p = .ok (.ok r) := by
  unfold outcome at h
  split at h
  next => cases h
  next => cases h
  next p _ =>
    split at h
    next => cases h
    next => cases h
    next r' hr =>
      cases h
      exact ⟨p, hr⟩

/-- The number of survivors in the report of a run is not zero exactly if there are some. -/
theorem survived_pos_iff {s : RunSettings} {defaults : Config} {r : Report} {w : ω}
    (h : s.outcome fs defaults w = .reported r) :
    0 < r.survived ↔ ∃ m ∈ r.mutants, m.status = .survived := by
  obtain ⟨p, hcampaign⟩ := s.exists_campaign_of_outcome h
  obtain ⟨_, _, -, -, -, haggregate⟩ :=
    Campaign.exists_handled_of_report (Campaign.run_of_runInMemory hcampaign)
  rw [haggregate]
  show 0 < Report.countStatus r.mutants .survived ↔ ∃ m ∈ r.mutants, m.status = .survived
  unfold Report.countStatus
  simp [List.countP_pos_iff]

/-- What a run of one module comes to depends on nothing but what the file holds. -/
theorem RunSettings.outcome_of_module {defaults : Config} {s : RunSettings} {p : Path} {m : Module}
    {r : Report} {w : ω} (hlist : s.list = none) (hmodules : s.modules = [p])
    (hread : (fs.read p w).1 = .ok m.toJson.toText.toUTF8)
    (hreport : s.campaign defaults ⟨[m.named p]⟩ = .ok (.ok r)) :
    s.outcome fs defaults w = .reported r := by
  have hmodule : ((fs.loadModule p).run w).1 = .ok (m.named p) := by
    rw [Module.run_loadModule, map_apply, hread, Module.ofAnswer_toText]
  have hload : ((s.loadProgram fs).run w).1 = .ok (some ⟨[m.named p]⟩) := by
    unfold RunSettings.loadProgram FileSystem.loadProgram
    rw [hlist, hmodules]
    simp only [pure_bind, List.append_nil, List.mapM_cons, List.mapM_nil, bind_assoc,
      ExceptT.run_bind, bind_apply, hmodule]
    rfl
  unfold RunSettings.outcome
  rw [hload]
  dsimp only
  rw [hreport]

/-- What carrying out a command leaves behind: the report that it produces, if it does. -/
theorem perform_snd (h : fs.KeepsStateFile sound) (defaults : Config) (environment : Environment)
    (args : List String) (w : ω) :
    (perform fs defaults environment args w).2 =
      match report? fs defaults environment args w with
      | some r => (fs.write stateFile r.toJson.toText.toUTF8 w).2
      | none => w := by
  have hlooks := h.loadReport?_snd stateFile w
  unfold perform report?
  cases Command.parse environment args with
  | error refusal => rfl
  | ok command =>
    cases command with
    | run s =>
      dsimp only [Command.execute]
      rw [s.execute_eq h]
    | detail reference json =>
      dsimp only [Command.execute]
      rw [bind_apply, hlooks]
      cases (fs.loadReport? stateFile w).1 <;> rfl
    | status json =>
      dsimp only [Command.execute]
      rw [bind_apply, hlooks]
      cases (fs.loadReport? stateFile w).1 <;> rfl

/-- Summing up as JSON tells the report in the state file, or that there is none. -/
theorem perform_status (h : fs.KeepsStateFile sound) (defaults : Config) (environment : Environment)
    (w : ω) :
    perform fs defaults environment ["status", "--json"] w =
      (match (fs.loadReport? stateFile w).1 with
        | some r => ⟨0, r.toJson.toText ++ "\n", ""⟩
        | none => noPreviousRun (stylesForced environment), w) := by
  have hparse : perform fs defaults environment ["status", "--json"] w =
      Command.execute fs ⟨stylesForced environment, defaults⟩ (.status true) w := rfl
  dsimp only [Command.execute] at hparse
  rw [hparse, bind_apply, h.loadReport?_snd]
  cases (fs.loadReport? stateFile w).1 with
  | none => rfl
  | some r =>
    show (statusReply (stylesForced environment) true r, w) = _
    unfold statusReply
    rw [if_pos rfl, lines_singleton]

end Execution

/-! ## Sessions -/

/-- A row of commands in one directory, with the last report that one of them produced. It begins
without a state file. Between commands anything else may change. The counts of a report are words,
and its score is read back from its literal. -/
inductive Session (fs : FileSystem (StateM ω)) (sound : ω → Prop) (defaults : Config) :
    ω → Option Report → Prop
  | start {w : ω} (hsound : sound w) {e : FileError}
      (habsent : (fs.read stateFile w).1 = .error e) : Session fs sound defaults w none
  | change {w w' : ω} {last : Option Report} (before : Session fs sound defaults w last)
      (hsound : sound w') (hsame : (fs.read stateFile w').1 = (fs.read stateFile w).1) :
      Session fs sound defaults w' last
  | command {w : ω} {last : Option Report} (before : Session fs sound defaults w last)
      (environment : Environment) (args : List String)
      (hfits : ∀ r ∈ report? fs defaults environment args w, r.FitsWords)
      (hscore : ∀ r ∈ report? fs defaults environment args w,
        (Json.Value.float r.score).asFloat? = some r.score) :
      Session fs sound defaults (perform fs defaults environment args w).2
        ((report? fs defaults environment args w).or last)

section Sessions

variable {fs : FileSystem (StateM ω)} {sound : ω → Prop} {defaults : Config} {w : ω}
  {last : Option Report}

/-- At any time in a session, the state file holds the last report. -/
theorem Session.loadReport?_eq (h : Session fs sound defaults w last)
    (hfs : fs.KeepsStateFile sound) : sound w ∧ (fs.loadReport? stateFile w).1 = last := by
  induction h with
  | start hsound habsent =>
    rw [FileSystem.loadReport?_apply, habsent]
    exact ⟨hsound, rfl⟩
  | change before hsound hsame ih =>
    rw [FileSystem.loadReport?_apply] at ih
    rw [FileSystem.loadReport?_apply, hsame]
    exact ⟨hsound, ih.2⟩
  | @command w last before environment args hfits hscore ih =>
    rw [perform_snd hfs]
    cases hreport : report? fs defaults environment args w with
    | none => exact ih
    | some r =>
      have hread := Report.parse?_toText (hfits r hreport) (hscore r hreport)
      exact ⟨hfs.sound_write _ w ih.1, (hfs.loadReport?_write ih.1 _).trans hread⟩

/-- The state file always tells the last completed run. At any time in a session, the command that
sums up tells the last report as JSON, or that there has been none. A run that fails says so with its
exit code and leaves everything as it was, as does one that has no room for its workers. A run that
reports tells with its exit code whether there are survivors, and as JSON it writes the very text that
the command that sums up tells from then on. -/
theorem tells_last_report (hfs : fs.KeepsStateFile sound)
    (hsession : Session fs sound defaults w last) (environment : Environment) :
    (∀ r, last = some r → perform fs defaults environment ["status", "--json"] w =
        (⟨0, r.toJson.toText ++ "\n", ""⟩, w)) ∧
      (last = none → ∃ errors, perform fs defaults environment ["status", "--json"] w =
        (⟨2, "", errors⟩, w)) ∧
      ∀ args s reply w', Command.parse environment args = .ok (.run s) →
        perform fs defaults environment args w = (reply, w') →
        (∀ e, s.outcome fs defaults w = .failed e → (reply.code = 2 ∨ reply.code = 3) ∧ w' = w) ∧
          (s.outcome fs defaults w = .noModules → reply.code = 2 ∧ w' = w) ∧
          (∀ v, s.outcome fs defaults w = .unbegun v →
            (reply.code = 101 ∨ reply.code = 134) ∧ w' = w) ∧
          ∀ r, s.outcome fs defaults w = .reported r →
            reply.code = (if ∃ m ∈ r.mutants, m.status = .survived then 1 else 0) ∧
              (s.json = true → s.quiet = false → reply.output = r.toJson.toText ++ "\n") := by
  have hkept := (hsession.loadReport?_eq hfs).2
  have hstatus := perform_status hfs defaults environment w
  rw [hkept] at hstatus
  refine ⟨?_, ?_, ?_⟩
  · rintro r rfl
    exact hstatus
  · rintro rfl
    exact ⟨_, hstatus⟩
  · intro args s reply w' hparse hperform
    have hexecute : perform fs defaults environment args w =
        s.execute fs ⟨stylesForced environment, defaults⟩ w := by
      unfold perform
      rw [hparse]
      rfl
    rw [hexecute, s.execute_eq hfs] at hperform
    obtain ⟨rfl, rfl⟩ := Prod.mk.inj hperform
    refine ⟨?_, ?_, ?_, ?_⟩
    · intro e houtcome
      rw [houtcome]
      exact ⟨exitCode_cases e, rfl⟩
    · intro houtcome
      rw [houtcome]
      exact ⟨rfl, rfl⟩
    · intro v houtcome
      rw [houtcome]
      exact ⟨unbegunReply_code v, rfl⟩
    · intro r houtcome
      rw [houtcome]
      refine ⟨?_, ?_⟩
      · show (runReply _ s r).code = _
        rw [runReply_code]
        simp only [survived_pos_iff houtcome]
      · intro hjson hquiet
        show (runReply _ s r).output = _
        unfold runReply
        dsimp only
        rw [hjson, hquiet, if_neg Bool.false_ne_true, if_pos rfl, lines_singleton]

end Sessions

/-- A module with a function that its test calls, but whose value the test does not look at. -/
def quietModule : Module where
  name := "lib"
  functions := [⟨"twice", 1, [.binary .add 0 0 0, .ret (some 0)]⟩,
    ⟨"test_twice", 0, [.call none "twice" [0], .ret none]⟩]

/-- A directory with nothing in it but that module. -/
def quietTree : FileTree where
  files := [(["lib.json"], quietModule.toJson.toText.toUTF8)]

/-- A run of that module. -/
def quietRun : RunSettings where
  modules := ["lib.json"]
  sandbox := some .none

/-- The mutant of that module survives. The command that sums up tells so after the run, and before it
that there has been none. -/
theorem survivor_told_after_run :
    ∃ r w, Session FileTree.fileSystem FileTree.HasPlace {} w (some r) ∧
      (∃ errors, perform FileTree.fileSystem {} [] ["status", "--json"] quietTree =
        (⟨2, "", errors⟩, quietTree)) ∧
      (∃ reply, perform FileTree.fileSystem {} [] ["run", "lib.json", "--sandbox", "none"]
        quietTree = (reply, w) ∧ reply.code = 1) ∧
      perform FileTree.fileSystem {} [] ["status", "--json"] w =
        (⟨0, r.toJson.toText ++ "\n", ""⟩, w) := by
  have hplace : quietTree.HasPlace := ⟨rfl, rfl, rfl, fun _ => ⟨by decide, rfl⟩⟩
  have hstart : Session FileTree.fileSystem FileTree.HasPlace {} quietTree none :=
    .start (e := .notFound) hplace rfl
  have hsurvives : (quietRun.campaign {} ⟨[quietModule]⟩).toOption.any (·.toOption.any fun r =>
      r.FitsWords ∧ (∃ m ∈ r.mutants, m.status = .survived) ∧
        (Json.Value.float r.score).asFloat? = some r.score) = true := by
    decide +kernel
  rcases hcampaign : quietRun.campaign {} ⟨[quietModule]⟩ with v | e | r
  · rw [hcampaign] at hsurvives
    cases hsurvives
  · rw [hcampaign] at hsurvives
    cases hsurvives
  · rw [hcampaign] at hsurvives
    obtain ⟨hfits, hsurvivor, hscore⟩ := of_decide_eq_true hsurvives
    have houtcome : quietRun.outcome FileTree.fileSystem {} quietTree = .reported r :=
      RunSettings.outcome_of_module rfl rfl rfl hcampaign
    have hparse : Command.parse [] ["run", "lib.json", "--sandbox", "none"] =
        .ok (.run quietRun) := rfl
    have hreport : report? FileTree.fileSystem {} [] ["run", "lib.json", "--sandbox", "none"]
        quietTree = some r := by
      unfold report?
      rw [hparse]
      show RunOutcome.report? _ = _
      rw [houtcome]
      rfl
    have hrun := hstart.command [] ["run", "lib.json", "--sandbox", "none"]
      (by rw [hreport]; rintro _ ⟨⟩; exact hfits) (by rw [hreport]; rintro _ ⟨⟩; exact hscore)
    obtain ⟨-, hnone, hcode⟩ := tells_last_report FileTree.keepsStateFile hstart []
    rcases hperform : perform FileTree.fileSystem {} [] ["run", "lib.json", "--sandbox", "none"]
      quietTree with ⟨reply, w⟩
    rw [hreport, hperform] at hrun
    obtain ⟨-, -, -, hcode⟩ := hcode _ _ _ _ hparse hperform
    obtain ⟨htold, -, -⟩ := tells_last_report FileTree.keepsStateFile hrun []
    refine ⟨r, w, hrun, hnone rfl, ⟨reply, rfl, ?_⟩, htold r rfl⟩
    exact (hcode r houtcome).1.trans (if_pos hsurvivor)

end CommandLine

end MutationTester
