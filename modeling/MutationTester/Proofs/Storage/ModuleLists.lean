import MutationTester.Proofs.Program.Encoding
import MutationTester.Proofs.Text.Lines

/-!
# What a module list names

A module list is written line by line: a path with blanks around it, nothing but blanks, or a comment
(`ModuleList.LineNames`). Each line is ended by a line feed, with or without a carriage return in front
of it, and the last line may be without an end (`ModuleList.Lists`). Every text is such a list, of the
paths that are read from it and of no others (`ModuleList.lists_iff`).
-/

set_option autoImplicit false

namespace MutationTester

namespace Text

/-! ## Blanks around a text -/

/-- Characters that are blank. -/
def Blanks (cs : List Char) : Prop := ∀ c ∈ cs, isBlank c = true

/-- Characters that do not begin with a blank. -/
def StartsFull (cs : List Char) : Prop := ∀ c, cs.head? = some c → isBlank c = false

/-- Without the blanks in front, what is left begins with none. -/
theorem dropWhile_isBlank_spec (cs : List Char) :
    StartsFull (cs.dropWhile isBlank) ∧
      ∃ front, Blanks front ∧ cs = front ++ cs.dropWhile isBlank := by
  refine ⟨fun c hc => ?_, cs.takeWhile isBlank, fun c => List.mem_takeWhile_imp,
    List.takeWhile_append_dropWhile.symm⟩
  have hfirst := List.head?_dropWhile_not isBlank cs
  rw [hc] at hfirst
  simpa using hfirst

theorem dropWhile_isBlank_append {front cs : List Char} (hfront : Blanks front)
    (hcs : StartsFull cs) : (front ++ cs).dropWhile isBlank = cs := by
  rw [List.dropWhile_append_of_pos hfront]
  cases cs with
  | nil => rfl
  | cons c cs => exact List.dropWhile_cons_of_neg (by simp [hcs c rfl])

theorem Blanks.append {cs cs' : List Char} (h : Blanks cs) (h' : Blanks cs') : Blanks (cs ++ cs') :=
  fun c hc => (List.mem_append.mp hc).elim (h c) (h' c)

theorem Blanks.reverse {cs : List Char} (h : Blanks cs) : Blanks cs.reverse :=
  fun c hc => h c (List.mem_reverse.mp hc)

/-- Without the blanks around, what is left neither begins nor ends with one. -/
theorem trimChars_spec (cs : List Char) :
    StartsFull (trimChars cs) ∧ StartsFull (trimChars cs).reverse ∧
      ∃ front back, Blanks front ∧ Blanks back ∧ cs = front ++ (trimChars cs ++ back) := by
  obtain ⟨hrest, front, hfront, hcs⟩ := dropWhile_isBlank_spec cs
  obtain ⟨hend, back, hback, hreverse⟩ := dropWhile_isBlank_spec (cs.dropWhile isBlank).reverse
  have htrimmed : (trimChars cs).reverse = (cs.dropWhile isBlank).reverse.dropWhile isBlank :=
    List.reverse_reverse _
  rw [← htrimmed] at hend hreverse
  have hsplit : cs.dropWhile isBlank = trimChars cs ++ back.reverse := by
    rw [← List.reverse_inj, hreverse, List.reverse_append, List.reverse_reverse]
  rw [hsplit] at hrest hcs
  refine ⟨fun c hc => hrest c ?_, hend, front, back.reverse, hfront, hback.reverse, hcs⟩
  rw [List.head?_append, hc]
  rfl

theorem trimChars_eq {front cs back : List Char} (hfront : Blanks front) (hback : Blanks back)
    (hstart : StartsFull cs) (hend : StartsFull cs.reverse) :
    trimChars (front ++ (cs ++ back)) = cs := by
  unfold trimChars
  cases cs with
  | nil =>
    rw [List.nil_append, List.dropWhile_eq_nil_iff.mpr (hfront.append hback)]
    rfl
  | cons c cs =>
    have hstart' : StartsFull (c :: cs ++ back) := hstart
    rw [dropWhile_isBlank_append hfront hstart', List.reverse_append,
      dropWhile_isBlank_append hback.reverse hend, List.reverse_reverse]

theorem trimChars_append (cs : List Char) {back : List Char} (hback : Blanks back) :
    trimChars (cs ++ back) = trimChars cs := by
  obtain ⟨hstart, hend, front, back', hfront, hback', hcs⟩ := trimChars_spec cs
  have htrimmed := trimChars_eq hfront (hback'.append hback) hstart hend
  rwa [← List.append_assoc (trimChars cs), ← List.append_assoc front, ← hcs] at htrimmed

/-- A character that is not blank is left where it stands first. -/
theorem exists_trimChars_eq_cons {front : List Char} (hfront : Blanks front) {c : Char}
    (hc : isBlank c = false) (cs : List Char) : ∃ rest, trimChars (front ++ c :: cs) = c :: rest := by
  obtain ⟨hstart, hend, front', back, hfront', hback, hcs⟩ := trimChars_spec (c :: cs)
  generalize trimChars (c :: cs) = full at *
  have hfirst {d : Char} {ds : List Char} (hds : Blanks (d :: ds)) : d ≠ c := by
    rintro rfl
    rw [hds d List.mem_cons_self] at hc
    cases hc
  cases front' with
  | cons d front' =>
    exact absurd (List.cons.inj hcs).1.symm (hfirst hfront')
  | nil =>
    cases full with
    | nil =>
      rw [List.nil_append, List.nil_append] at hcs
      exact absurd rfl (hfirst (hcs ▸ hback))
    | cons d full =>
      obtain ⟨rfl, -⟩ := List.cons.inj hcs
      refine ⟨full, ?_⟩
      rw [hcs]
      exact trimChars_eq hfront hback hstart hend

end Text

/-! ## Lines of a list -/

open Text (Blanks StartsFull trimChars linesWithoutEnds dropReturn)

namespace ModuleList

/-- A path that can be written in a module list: there is something of it, it is on one line, it
neither begins nor ends with a blank, and it does not look like a comment. -/
structure IsEntry (p : Path) : Prop where
  ne_empty : p ≠ ""
  no_feed : '\n' ∉ p.toList
  starts_full : StartsFull p.toList
  ends_full : StartsFull p.toList.reverse
  no_comment : p.toList.head? ≠ some '#'

/-- Blanks within one line. -/
structure Padding (cs : List Char) : Prop where
  blanks : Blanks cs
  no_feed : '\n' ∉ cs

/-- What a line names, without its end: the path that it holds, or nothing. -/
inductive LineNames : List Char → List Path → Prop
  | path {front back : List Char} {p : Path} (hfront : Padding front) (hp : IsEntry p)
      (hback : Padding back) : LineNames (front ++ (p.toList ++ back)) [p]
  | blank {cs : List Char} (h : Padding cs) : LineNames cs []
  | comment {front cs : List Char} (hfront : Padding front) (hcs : '\n' ∉ cs) :
      LineNames (front ++ '#' :: cs) []

theorem LineNames.no_feed {line : List Char} {paths : List Path} (h : LineNames line paths) :
    '\n' ∉ line := by
  cases h with
  | path hfront hp hback => simp [hfront.no_feed, hp.no_feed, hback.no_feed]
  | blank h => exact h.no_feed
  | comment hfront hcs => simp [hfront.no_feed, hcs]

/-- What is read from a line: the path that it holds, or nothing. -/
def readLine (line : List Char) : List Path :=
  if isListEntry (String.ofList (trimChars line)) then [String.ofList (trimChars line)] else []

theorem isListEntry_ofList_cons (c : Char) (cs : List Char) :
    isListEntry (String.ofList (c :: cs)) = decide (c ≠ '#') := by
  simp [isListEntry]

theorem IsEntry.isListEntry_eq {p : Path} (hp : IsEntry p) : isListEntry p = true := by
  cases hchars : p.toList with
  | nil => exact absurd (String.toList_eq_nil_iff.mp hchars) hp.ne_empty
  | cons c cs =>
    have hc : c ≠ '#' := by
      rintro rfl
      exact hp.no_comment (by rw [hchars]; rfl)
    rw [← String.ofList_toList (s := p), hchars, isListEntry_ofList_cons]
    exact decide_eq_true hc

theorem LineNames.readLine_eq {line : List Char} {paths : List Path} (h : LineNames line paths) :
    readLine line = paths := by
  unfold readLine
  cases h with
  | path hfront hp hback =>
    rw [Text.trimChars_eq hfront.blanks hback.blanks hp.starts_full hp.ends_full,
      String.ofList_toList]
    exact if_pos hp.isListEntry_eq
  | blank h =>
    have hnothing := Text.trimChars_append [] h.blanks
    rw [List.nil_append] at hnothing
    rw [hnothing]
    rfl
  | comment hfront hcs =>
    have hfull : Text.isBlank '#' = false := by decide
    obtain ⟨rest, hrest⟩ := Text.exists_trimChars_eq_cons hfront.blanks hfull _
    rw [hrest, isListEntry_ofList_cons]
    rfl

theorem lineNames_readLine {line : List Char} (hfeed : '\n' ∉ line) :
    LineNames line (readLine line) := by
  obtain ⟨hstart, hend, front, back, hfront, hback, hline⟩ := Text.trimChars_spec line
  unfold readLine
  generalize trimChars line = path at *
  subst hline
  rw [List.mem_append, List.mem_append, not_or, not_or] at hfeed
  obtain ⟨hfeed, hfeed', hfeed''⟩ := hfeed
  cases path with
  | nil =>
    refine .blank ⟨hfront.append hback, ?_⟩
    rw [List.mem_append]
    exact not_or.mpr ⟨hfeed, hfeed''⟩
  | cons c cs =>
    rw [isListEntry_ofList_cons]
    by_cases hc : c = '#'
    · subst hc
      have hcs : '\n' ∉ cs ++ back := by
        rw [List.mem_append]
        exact not_or.mpr ⟨List.not_mem_of_not_mem_cons hfeed', hfeed''⟩
      exact .comment ⟨hfront, hfeed⟩ hcs
    · rw [if_pos (decide_eq_true hc)]
      have hentry : IsEntry (String.ofList (c :: cs)) := by
        constructor
        case ne_empty => simp
        all_goals rw [String.toList_ofList]
        case no_feed => exact hfeed'
        case starts_full => exact hstart
        case ends_full => exact hend
        case no_comment => exact fun h => hc (Option.some.inj h)
      have hpath := LineNames.path ⟨hfront, hfeed⟩ hentry ⟨hback, hfeed''⟩
      rwa [String.toList_ofList] at hpath

/-! ## Lists -/

/-- The paths that the characters of a module list name, line by line. Only the last line may be
without an end. -/
inductive Lists : List Char → List Path → Prop
  | unended {line : List Char} {paths : List Path} (h : LineNames line paths) : Lists line paths
  | ended {line ending rest : List Char} {paths more : List Path} (h : LineNames line paths)
      (hending : ending = ['\n'] ∨ ending = ['\r', '\n']) (hrest : Lists rest more) :
      Lists (line ++ (ending ++ rest)) (paths ++ more)

/-- The paths that are read from the characters of a list. -/
def readLines (cs : List Char) : List Path := (linesWithoutEnds [] [] cs).flatMap readLine

theorem modulePaths_eq (list : Path) (text : String) :
    modulePaths list text = (readLines text.toList).map ((list.parent?.getD ".").join ·) := by
  have hlines (lines : List (List Char)) :
      ((lines.map String.ofList).map Text.trim).filter isListEntry = lines.flatMap readLine := by
    induction lines with
    | nil => rfl
    | cons line lines ih =>
      have htrim : Text.trim (String.ofList line) = String.ofList (trimChars line) := by
        rw [Text.trim, String.toList_ofList]
      rw [List.map_cons, List.map_cons, List.filter_cons, List.flatMap_cons, ih, htrim, readLine]
      split <;> rfl
  exact congrArg _ (hlines _)

theorem readLine_append (line : List Char) {back : List Char} (hback : Blanks back) :
    readLine (line ++ back) = readLine line := by
  unfold readLine
  rw [Text.trimChars_append line hback]

theorem blanks_return : Blanks ['\r'] := List.forall_mem_singleton.mpr (by decide)

/-- A carriage return in front of the end of a line is one of them. -/
theorem readLine_dropReturn (line : List Char) :
    readLine (dropReturn line.reverse).reverse = readLine line := by
  unfold dropReturn
  split
  next cs hreverse =>
    have hline : line = cs.reverse ++ ['\r'] := by
      rw [← List.reverse_inj, hreverse, List.reverse_append, List.reverse_reverse]
      rfl
    rw [hline, readLine_append _ blanks_return]
  next => rw [List.reverse_reverse]

theorem readLines_last {line : List Char} (hfeed : '\n' ∉ line) : readLines line = readLine line := by
  unfold readLines
  rw [Text.linesWithoutEnds_last hfeed]
  cases line with
  | nil => rfl
  | cons c cs => exact List.append_nil _

theorem readLines_line {line : List Char} (hfeed : '\n' ∉ line) (rest : List Char) :
    readLines (line ++ '\n' :: rest) = readLine line ++ readLines rest := by
  unfold readLines
  rw [Text.linesWithoutEnds_line hfeed, List.flatMap_cons, readLine_dropReturn]

theorem Lists.readLines_eq {cs : List Char} {paths : List Path} (h : Lists cs paths) :
    readLines cs = paths := by
  induction h with
  | unended h => rw [readLines_last h.no_feed, h.readLine_eq]
  | @ended line ending rest paths more h hending hrest ih =>
    rcases hending with rfl | rfl
    · rw [List.singleton_append, readLines_line h.no_feed, h.readLine_eq, ih]
    · -- the carriage return is read as the last character of the line
      have hfeed : '\n' ∉ line ++ ['\r'] := by simp [h.no_feed]
      have hsplit : line ++ (['\r', '\n'] ++ rest) = line ++ ['\r'] ++ '\n' :: rest := by simp
      rw [hsplit, readLines_line hfeed, readLine_append _ blanks_return, h.readLine_eq, ih]

/-- Any characters are a list of the paths that are read from them. -/
theorem lists_readLines (cs : List Char) : Lists cs (readLines cs) := by
  -- what stands behind the first line feed is a shorter list
  induction hlength : cs.length using Nat.strong_induction_on generalizing cs with
  | _ n ih =>
    by_cases hfeed : '\n' ∈ cs
    · obtain ⟨line, rest, rfl, hline⟩ := List.eq_append_cons_of_mem hfeed
      rw [readLines_line hline]
      have hshorter : rest.length < n := by
        rw [List.length_append, List.length_cons] at hlength
        omega
      exact .ended (lineNames_readLine hline) (.inl rfl) (ih _ hshorter rest rfl)
    · rw [readLines_last hfeed]
      exact .unended (lineNames_readLine hfeed)

/-- A list names the paths that are read from it, and no others. -/
theorem lists_iff (cs : List Char) (paths : List Path) : Lists cs paths ↔ readLines cs = paths := by
  constructor
  · exact Lists.readLines_eq
  · rintro rfl
    exact lists_readLines cs

/-! ## Reading a list -/

/-- What becomes of a file that should hold a module list, given its bytes or why there are none. -/
def ofAnswer (list : Path) (answer : Except FileError ByteArray) : Except Failure (List Path) :=
  (loadedText list answer).map (modulePaths list)

variable {M : Type → Type} [Monad M] [LawfulMonad M] (fs : FileSystem M)

theorem run_loadModuleList (list : Path) :
    (fs.loadModuleList list).run = ofAnswer list <$> fs.read list := by
  unfold FileSystem.loadModuleList
  rw [bind_pure_comp, ExceptT.run_map, fs.run_loadText, Functor.map_map]
  rfl

theorem ofAnswer_toUTF8 (list : Path) (text : String) :
    ofAnswer list (.ok text.toUTF8) = .ok (modulePaths list text) := by
  unfold ofAnswer loadedText
  rw [Except.bind, textOfBytes_toUTF8]
  rfl

/-- An absolute path is meant as it is, another one in the directory. -/
theorem join_eq (directory p : Path) :
    directory.join p = if p.isAbsolute then p else directory.join p := by
  split
  next habsolute => exact if_pos habsolute
  next => rfl

/-- A module list reads back. Loading it does nothing but read its file. From any text that names some
paths line by line, these are loaded in their order, absolute ones as they are and relative ones in the
directory of the list; and whatever is loaded from any text are the paths that it names in this way. -/
theorem reads_back (list : Path) :
    (fs.loadModuleList list).run = ofAnswer list <$> fs.read list ∧
      ∀ (text : String) (loaded : List Path), ofAnswer list (.ok text.toUTF8) = .ok loaded ↔
        ∃ paths, Lists text.toList paths ∧
          loaded = paths.map fun p =>
            if p.isAbsolute then p else (list.parent?.getD ".").join p := by
  refine ⟨run_loadModuleList fs list, fun text loaded => ?_⟩
  have hjoin : (Path.join (list.parent?.getD ".") ·) = fun p : Path =>
      if p.isAbsolute then p else Path.join (list.parent?.getD ".") p :=
    funext (join_eq _)
  rw [ofAnswer_toUTF8, modulePaths_eq, hjoin, Except.ok.injEq]
  constructor
  · rintro rfl
    exact ⟨_, (lists_iff _ _).mpr rfl, rfl⟩
  · rintro ⟨paths, hlists, rfl⟩
    rw [(lists_iff _ _).mp hlists]

/-- A list with a comment, with blanks that are no spaces, with both ends of lines and with a last line
that has none. -/
def mixedList : String :=
  "# in this order\r\n\tlib.json\u2003\n\r\n \u00a0\n  /opt/#main.json \r\n\u0085tests/all.json"

/-- The file tree in which that list is kept. -/
def mixedTree : FileTree where
  files := [(["lists", "modules.txt"], mixedList.toUTF8)]

/-- All three paths in it are loaded. -/
theorem mixed_list_reads_back :
    (FileTree.fileSystem.loadModuleList "lists/modules.txt").run mixedTree =
      (.ok ["lists/lib.json", "/opt/#main.json", "lists/tests/all.json"], mixedTree) := by
  obtain ⟨hload, hanswer⟩ := reads_back FileTree.fileSystem "lists/modules.txt"
  have hlists : Lists mixedList.toList ["lib.json", "/opt/#main.json", "tests/all.json"] :=
    (lists_iff _ _).mpr (by decide)
  have hread : FileTree.fileSystem.read "lists/modules.txt" mixedTree =
      (.ok mixedList.toUTF8, mixedTree) := by
    rfl
  have hloaded := (hanswer mixedList
    ["lists/lib.json", "/opt/#main.json", "lists/tests/all.json"]).mpr ⟨_, hlists, by decide⟩
  rw [hload]
  show (ofAnswer "lists/modules.txt" (FileTree.fileSystem.read "lists/modules.txt" mixedTree).1,
    (FileTree.fileSystem.read "lists/modules.txt" mixedTree).2) = _
  rw [hread, hloaded]

end ModuleList

end MutationTester
