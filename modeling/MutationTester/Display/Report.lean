import MutationTester.Decimal.Fixed
import MutationTester.Display.Style
import MutationTester.Report.Reference
import MutationTester.Text.Lines

/-!
# Readable output

What the command line says of errors, of reports and of single mutants. Each function gives
lines without their ends; whether styles are shown is for the caller to say.
-/

set_option autoImplicit false

namespace MutationTester.Display

/-- Lines as one text. -/
def unlines (lines : List String) : String := String.join (lines.map (· ++ "\n"))

/-- The line for an error. -/
def errorLine (styled : Bool) (message : String) : String :=
  (Style.strong .red).apply styled "✗" ++ " " ++ message

/-- The line for a success. -/
def successLine (styled : Bool) (message : String) : String :=
  (Style.strong .green).apply styled "✓" ++ " " ++ message

/-- An indented remark. -/
def remark (styled : Bool) (message : String) : String :=
  "  " ++ Style.faint.apply styled "·" ++ " " ++ message

/-- A score in percent with one decimal place. -/
def percent (score : Float) : String := Decimal.fixed 1 (score * 100.0) ++ "%"

/-- Milliseconds in seconds with one decimal place. -/
def seconds (milliseconds : Nat) : String :=
  Decimal.fixed 1 (Float.ofNat milliseconds / 1000.0) ++ "s"

/-- Where a mutant changes the program. -/
def place (m : MutantResult) : String := m.function ++ "#" ++ m.index.repr

/-- The remark on a test that did not pass on the unchanged program. -/
def testRemark? (styled : Bool) (t : TestReport) : Option String :=
  if t.status = some .passed then none
  else
    let words := (t.status.map RunStatus.words).getD "not run"
    some (remark styled ("test " ++ t.name ++ " " ++ words ++ " at baseline"))

/-- The line with the score of a report. -/
def scoreLine (styled : Bool) (r : Report) : String :=
  let scored := (r.killed + r.survived).repr
  if r.survived = 0 then
    successLine styled (scored ++ " mutants scored, all killed (" ++ percent r.score ++ ") in " ++
      seconds r.durationMs)
  else
    (Style.strong .yellow).apply styled "!" ++ " " ++ r.survived.repr ++ " survived / " ++ scored ++
      " scored (" ++ percent r.score ++ " killed) in " ++ seconds r.durationMs

/-- The remarks on what the score does not show, each where there is something to count. -/
def countRemarks (styled : Bool) (r : Report) : List String :=
  let counts := [(r.notCovered, "mutants not covered by any test"),
    (r.compileErrors, "mutants not scored (compile/baseline error)"),
    (r.timedOut, "mutants killed by timeout"), (r.crashed, "mutants killed by crash")]
  (counts.filter fun entry => 0 < entry.1).map fun (n, what) => remark styled (n.repr ++ " " ++ what)

/-- The beginning of the line that lists a survivor. -/
def survivorEntry (styled : Bool) (m : MutantResult) (number : Nat) : String :=
  "  " ++ (Style.strong .cyan).apply styled (survivorReference number) ++ " " ++ place m

/-- The lines of a report at the end of a run. -/
def reportLines (styled : Bool) (r : Report) : List String :=
  r.tests.filterMap (testRemark? styled) ++ scoreLine styled r :: countRemarks styled r ++
    if r.survived = 0 then []
    else
      "" :: r.numberedSurvivors.map fun (m, number) =>
        survivorEntry styled m number ++ " " ++ Style.faint.apply styled ("[" ++ m.operator ++ "]")

/-- The lines of a report from anywhere, whose counts need not be those of its own list. -/
def checkedReportLines (styled : Bool) (r : Report) : Except Violation (List String) := do
  let _ ← scoredCount r.killed r.survived
  return reportLines styled r

/-- The lines of a report that is looked at later. -/
def statusLines (styled : Bool) (r : Report) : List String :=
  ("Last run: " ++ r.total.repr ++ " mutants, " ++ r.killed.repr ++ " killed, " ++ r.survived.repr ++
    " survived, " ++ r.notCovered.repr ++ " not covered (" ++ percent r.score ++ " score)") ::
    if r.survived = 0 then []
    else
      "" :: (r.numberedSurvivors.map fun (m, number) =>
        survivorEntry styled m number ++ " " ++ m.operator) ++
      ["", "Use `irmut show @m1` for details on a specific mutant."]

/-- The line for a changed line of a listing; lines that are not changed have none. -/
def changeLine? (styled : Bool) (line : String) : Option String :=
  match line.toList with
  | '-' :: _ => some ("  " ++ (Style.plain .red).apply styled line)
  | '+' :: _ => some ("  " ++ (Style.plain .green).apply styled line)
  | _ => none

/-- The line for a test that has detected a mutant. -/
def killLine (k : Kill) : String := "  killed by " ++ k.test ++ " (" ++ k.status.words ++ ")"

/-- The lines for a mutant that was asked for by a reference. -/
def mutantLines (styled : Bool) (reference : String) (m : MutantResult) : List String :=
  let name := "@" ++ String.ofList (dropSigns reference)
  ((Style.strong .cyan).apply styled name ++ " " ++ place m ++ " [" ++ m.operator ++ "] " ++
    m.status.words) ::
    "" :: (Text.lines m.diff).filterMap (changeLine? styled) ++
    if m.status = .killed then m.killers.map killLine else []

end MutationTester.Display
