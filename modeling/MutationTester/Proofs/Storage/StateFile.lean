import MutationTester.Proofs.Program.Encoding
import MutationTester.Proofs.Report.Encoding
import MutationTester.Storage.FileTree
import MutationTester.Storage.State

/-!
# The state file

A file system keeps the state file if reading changes nothing and what is written to the state file is
there afterwards (`FileSystem.KeepsStateFile`). Then a report that reads back from its text is kept
(`FileSystem.KeepsStateFile.loadReport?_write`). File trees keep the state file as long as the current
directory has a place for it (`FileTree.keepsStateFile`).
-/

set_option autoImplicit false

namespace MutationTester

section Reports

variable {ω : Type}

theorem bind_apply {α β : Type} (x : StateM ω α) (f : α → StateM ω β) (w : ω) :
    (x >>= f) w = f (x w).1 (x w).2 := rfl

theorem map_apply {α β : Type} (f : α → β) (x : StateM ω α) (w : ω) :
    (f <$> x) w = (f (x w).1, (x w).2) := rfl

/-- Files are not changed by reading them. As long as the world is sound, the state file can be
written, and then holds what was written. -/
structure FileSystem.KeepsStateFile (fs : FileSystem (StateM ω)) (sound : ω → Prop) : Prop where
  read_snd : ∀ p w, (fs.read p w).2 = w
  write_fst : ∀ bytes w, sound w → (fs.write stateFile bytes w).1 = .ok ()
  sound_write : ∀ bytes w, sound w → sound (fs.write stateFile bytes w).2
  read_write : ∀ bytes w, sound w →
    (fs.read stateFile (fs.write stateFile bytes w).2).1 = .ok bytes

namespace FileSystem

variable {fs : FileSystem (StateM ω)} {sound : ω → Prop}

/-- The report in a file depends on nothing but what can be read there. -/
theorem loadReport?_apply (fs : FileSystem (StateM ω)) (p : Path) (w : ω) :
    fs.loadReport? p w =
      ((((fs.read p w).1.bind textOfBytes).toOption.bind Report.parse?), (fs.read p w).2) := by
  unfold loadReport? readText
  rw [bind_pure_comp, bind_apply, map_apply]
  cases (fs.read p w).1.bind textOfBytes with
  | ok text => rfl
  | error e => rfl

/-- Keeping a report writes the file, whatever comes of it. -/
theorem run_saveReport_snd (fs : FileSystem (StateM ω)) (p : Path) (r : Report) (w : ω) :
    ((fs.saveReport p r).run w).2 = (fs.write p r.toJson.toText.toUTF8 w).2 := by
  unfold saveReport writeText
  rw [ExceptT.run_bind, bind_apply, ExceptT.run_liftM, map_apply]
  dsimp only
  cases (fs.write p r.toJson.toText.toUTF8 w).1 with
  | ok u => rfl
  | error e => rfl

theorem KeepsStateFile.loadReport?_snd (h : fs.KeepsStateFile sound) (p : Path) (w : ω) :
    (fs.loadReport? p w).2 = w := by
  rw [loadReport?_apply]
  exact h.read_snd p w

/-- What is read from the state file is what was last written to it. -/
theorem KeepsStateFile.loadReport?_write (h : fs.KeepsStateFile sound) {w : ω} (hw : sound w)
    (text : String) :
    (fs.loadReport? stateFile (fs.write stateFile text.toUTF8 w).2).1 = Report.parse? text := by
  rw [loadReport?_apply, h.read_write _ w hw]
  dsimp only [Except.bind]
  rw [textOfBytes_toUTF8]
  rfl

end FileSystem

end Reports

/-! ## File trees -/

namespace FileTree

/-- The names that lead to the state file. -/
def stateNames (t : FileTree) : List String := t.current ++ [stateFile]

/-- The current directory is one, and it holds the state file already or has a place for it. -/
structure HasPlace (t : FileTree) : Prop where
  current_file : t.files.lookup t.current = none
  current_device : t.devices.lookup t.current = none
  state_device : t.devices.lookup t.stateNames = none
  state_file : t.files.lookup t.stateNames = none →
    t.isDirectory t.stateNames = false ∧ t.closed.contains t.current = false

variable {t : FileTree}

theorem follow_current (h : t.HasPlace) {part : String} (hpart : part = "." ∨ part = stateFile) :
    t.follow t.current part = .ok (if part = "." then t.current else t.current ++ [part]) := by
  have hdirectory : t.isDirectory t.current = true := by
    simp [isDirectory]
  have hentry : t.entry? t.current = some .directory := by
    unfold entry?
    rw [h.current_file, h.current_device, hdirectory]
    rfl
  unfold follow
  rw [hentry]
  rcases hpart with rfl | rfl
  · rfl
  · rfl

/-- The path of the state file leads to its place in the current directory. -/
theorem locate_stateFile (h : t.HasPlace) :
    t.locate stateFile stateFile.parts = .ok t.stateNames := by
  have horigin : t.origin stateFile = .ok t.current := rfl
  have hfollow : t.follow t.current stateFile = .ok t.stateNames := follow_current h (.inr rfl)
  have hparts : stateFile.parts = [stateFile] := rfl
  unfold locate
  rw [horigin, hparts]
  show List.foldlM t.follow t.current [stateFile] = _
  rw [List.foldlM_cons, hfollow]
  rfl

theorem entry?_stateNames (h : t.HasPlace) :
    t.entry? t.stateNames = (t.files.lookup t.stateNames).map Entry.file := by
  unfold entry?
  rw [h.state_device]
  cases hfile : t.files.lookup t.stateNames with
  | some bytes => rfl
  | none =>
    dsimp only
    rw [(h.state_file hfile).1]
    rfl

theorem read_stateFile (h : t.HasPlace) :
    t.read stateFile = match t.files.lookup t.stateNames with
      | some bytes => .ok bytes
      | none => .error .notFound := by
  unfold read
  simp only [locate_stateFile h, bind, Except.bind]
  rw [entry?_stateNames h]
  cases t.files.lookup t.stateNames with
  | some bytes => rfl
  | none => rfl

theorem writeAt_stateNames (h : t.HasPlace) (bytes : ByteArray) :
    t.writeAt t.stateNames bytes = .ok (t.put t.stateNames bytes) := by
  unfold writeAt entry?
  rw [h.state_device]
  cases hfile : t.files.lookup t.stateNames with
  | some old => rfl
  | none =>
    obtain ⟨hdirectory, hclosed⟩ := h.state_file hfile
    have hparent : t.stateNames.dropLast = t.current := List.dropLast_concat
    dsimp only
    rw [hdirectory, hparent, hclosed]
    rfl

/-- Writing to the state file puts it into its place. -/
theorem write_stateFile (h : t.HasPlace) (bytes : ByteArray) :
    t.write stateFile bytes = .ok (t.put t.stateNames bytes) := by
  have hlast : stateFile.parts.reverse.dropWhile (· = "") = [stateFile] := rfl
  have horigin : t.locate stateFile [] = .ok t.current := rfl
  have hdot : t.follow t.current "." = .ok t.current := follow_current h (.inl rfl)
  have hfollow : t.follow t.current stateFile = .ok t.stateNames := follow_current h (.inr rfl)
  have hname : namesDirectory stateFile stateFile = false := rfl
  unfold write
  rw [hlast]
  show (t.locate stateFile [] >>= (t.follow · ".")) >>= (fun directory =>
    if namesDirectory stateFile stateFile then .error .isDirectory
    else t.follow directory stateFile >>= (t.writeAt · bytes)) = _
  rw [horigin]
  show (t.follow t.current "." >>= fun directory =>
    if namesDirectory stateFile stateFile then .error .isDirectory
    else t.follow directory stateFile >>= (t.writeAt · bytes)) = _
  rw [hdot, hname]
  show (t.follow t.current stateFile >>= (t.writeAt · bytes)) = _
  rw [hfollow]
  exact writeAt_stateNames h bytes

/-- What is put somewhere is there. -/
theorem lookup_put (t : FileTree) (names : List String) (bytes : ByteArray) :
    (t.put names bytes).files.lookup names = some bytes := by
  simp [put]

/-- Nothing else is changed by putting something somewhere. -/
theorem lookup_put_of_ne (t : FileTree) {names others : List String} (h : others ≠ names)
    (bytes : ByteArray) : (t.put names bytes).files.lookup others = t.files.lookup others := by
  have hfilter (files : List (List String × ByteArray)) :
      (files.filter fun file => file.1 ≠ names).lookup others = files.lookup others := by
    induction files with
    | nil => rfl
    | cons file files ih =>
      obtain ⟨key, value⟩ := file
      by_cases hkey : key = names
      · have hother : (others == key) = false := by simpa [hkey] using h
        rw [List.filter_cons_of_neg (by simpa using hkey), ih, List.lookup_cons, hother]
      · rw [List.filter_cons_of_pos (by simpa using hkey), List.lookup_cons, List.lookup_cons, ih]
  have hothers : (others == names) = false := by simpa using h
  simp only [put, List.lookup_cons, hothers]
  exact hfilter t.files

theorem HasPlace.put (h : t.HasPlace) (bytes : ByteArray) : (t.put t.stateNames bytes).HasPlace := by
  have hne : t.current ≠ t.stateNames := by
    intro heq
    have hlength := congrArg List.length heq
    simp [stateNames] at hlength
  refine ⟨?_, h.current_device, h.state_device, ?_⟩
  · rw [← h.current_file]
    exact t.lookup_put_of_ne hne bytes
  · intro hnone
    have hsome := t.lookup_put t.stateNames bytes
    exact absurd (hsome.symm.trans hnone) (Option.some_ne_none bytes)

theorem read_put_stateFile (h : t.HasPlace) (bytes : ByteArray) :
    (t.put t.stateNames bytes).read stateFile = .ok bytes := by
  have hsome : (t.put t.stateNames bytes).files.lookup (t.put t.stateNames bytes).stateNames =
      some bytes := t.lookup_put t.stateNames bytes
  rw [read_stateFile (h.put bytes), hsome]

theorem fileSystem_write_stateFile (h : t.HasPlace) (bytes : ByteArray) :
    fileSystem.write stateFile bytes t = (.ok (), t.put t.stateNames bytes) := by
  have hget : (get : StateM FileTree FileTree) t = (t, t) := rfl
  dsimp only [fileSystem]
  rw [bind_apply, hget]
  dsimp only
  rw [write_stateFile h]
  rfl

/-- File trees keep the state file. -/
theorem keepsStateFile : fileSystem.KeepsStateFile HasPlace where
  read_snd _ _ := rfl
  write_fst bytes t h := by rw [fileSystem_write_stateFile h]
  sound_write bytes t h := by
    rw [fileSystem_write_stateFile h]
    exact h.put bytes
  read_write bytes t h := by
    rw [fileSystem_write_stateFile h]
    exact read_put_stateFile h bytes

end FileTree

end MutationTester
