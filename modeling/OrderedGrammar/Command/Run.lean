import OrderedGrammar.Command.Arguments
import OrderedGrammar.Command.Files
import OrderedGrammar.Notation.Reader
import OrderedGrammar.Number.General
import OrderedGrammar.Pattern.Library
import OrderedGrammar.Points.Reader
import OrderedGrammar.Tree.Printer

/-!
The commands. `check` reads a grammar and counts its rules, `parse` prints the tree of a text under
a grammar, `points` lists points. A command comes to a report: an exit code and the lines for the
two outputs. Under debug more lines go to the error output, before those that are written anyway.
-/

namespace OrderedGrammar.Command

/-- What a command comes to. -/
structure Report where
  code : Nat
  output : List String
  errors : List String
  deriving DecidableEq

/-- What a command does not deal with. -/
inductive Crash
  | notText
  | nullInPath
  /-- There is no text or no path to read. -/
  | noValue
  | evaluation (e : EvalError)
  | description (e : UnknownValidator)
  | points (e : TransformError)
  deriving DecidableEq

/-- A report, unless something goes wrong that no report covers. -/
abbrev Result := Except Crash Report

namespace Report

/-- A failure, which writes nothing to the output. -/
def failure (code : Nat) (errors : List String) : Result := .ok ⟨code, [], errors⟩

/-- Success with these lines. -/
def success (output : List String) : Result := .ok ⟨0, output, []⟩

/-- Lines that are written first, under debug only. -/
def announce (debug : Bool) (lines : List String) (r : Result) : Result :=
  r.map fun report => { report with errors := (if debug then lines else []) ++ report.errors }

end Report

/-- Why a file gives no text or no grammar. -/
inductive Problem
  | file (path : String) (e : FileError)
  | source (src : String) (e : Notation.Error)
  | crash (c : Crash)

/-- The report of a problem. -/
def Problem.report : Problem → Result
  | file path e => Report.failure 2 ["[ERROR] " ++ e.message path]
  | source src e => Report.failure 2 ["[SYNTAX ERROR]", e.message src]
  | crash c => .error c

/-- The text of a file. -/
def readFile (files : Files) (path : String) : Except Problem String :=
  if path.toList.contains '\x00' then .error (.crash .nullInPath)
  else match files path with
    | .error e => .error (.file path e)
    | .ok bytes =>
      match Source.decodeText? bytes with
      | some s => .ok s
      | none => .error (.crash .notText)

/-- The source of a grammar: the text of a file, in which line ends are replaced once more. -/
def loadSource (files : Files) (path : String) : Except Problem String := do
  let text ← readFile files (tidyPath path)
  return String.ofList (Source.replaceLineEnds text.toList)

/-- The text to match: given as an argument, it is taken as it is. -/
def readSource (files : Files) : TextSource → Except Problem String
  | .text s => .ok s
  | .file path => readFile files path
  | .noText => .error (.crash .noValue)
  | .noFile => .error (.crash .noValue)

variable [Regex]

/-- The grammar in a file. -/
def loadGrammar (files : Files) (path : String) : Except Problem Grammar := do
  let src ← loadSource files path
  (Notation.read src).mapError (.source src)

/-! ### Lines under debug -/

/-- The grammar has been read. -/
def readyLine (g : Grammar) : String :=
  s!"[DEBUG] grammar ready | entry={g.entry} rules={g.rules.length}"

/-- A rule with its alternatives, the name at the right of 24 columns. -/
def ruleLine (name : String) (alternatives : List String) : String :=
  String.ofList (name.toList.leftpad 24 ' ') ++ " : " ++ " | ".intercalate alternatives

/-- All rules of a grammar and the rules that are referred to. -/
def ruleLines (g : Grammar) : Except UnknownValidator (List String) := do
  let rules ← g.describe
  return ["", "[RULES]", s!"Entry: {g.entry}"] ++ (rules.map fun r => ruleLine r.1 r.2) ++
    ["[DEBUG] referenced: " ++ ", ".intercalate g.references]

/-- How much of the text has been matched. -/
def consumedLine (t : Tree) (text : Text) : String :=
  s!"[DEBUG] consumed {t.width}/{text.size} chars"

/-- The tree under its heading. -/
def treeLines (t : Tree) (text : Text) : List String := ["", "[AST]", t.format text]

/-! ### The commands -/

/-- The counts of a grammar. -/
def checkLine (g : Grammar) : String :=
  s!"[CHECK OK] entry={g.entry} rules={g.rules.length} alternatives={g.alternativeCount}"

/-- Reads a grammar and reports its counts. -/
def check (files : Files) (path : String) (debug : Bool) : Result :=
  match loadGrammar files path with
  | .error p => p.report
  | .ok g => do
    let lines ← if debug then (ruleLines g).mapError Crash.description else pure []
    Report.announce debug (readyLine g :: lines) (Report.success [checkLine g])

/-- The report of a match that was looked for. -/
def reportMatch (g : Grammar) (src : String) (debug : Bool) :
    Except MatchError (Option Tree) → Result
  | .error (.mismatch m) => Report.failure 1 ["[NO MATCH]", m.message src]
  | .error (.evaluation (.undefinedRule name)) =>
    Report.failure 2 ["[GRAMMAR ERROR] " ++ (EvalError.undefinedRule name).message]
  | .error (.evaluation e) => .error (.evaluation e)
  | .ok none => Report.failure 1 [s!"[NO MATCH] input does not match grammar '{g.entry}'"]
  | .ok (some t) =>
    let text := Text.ofString src
    Report.announce debug [consumedLine t text] (Report.success [t.format text])

/-- The match that is looked for: of the whole text, or as far as it goes. -/
def findMatch (g : Grammar) (src : String) (complete : Bool) : Except MatchError (Option Tree) :=
  let text := Text.ofString src
  if complete then (g.requireMatch text).map some else (g.parse text).mapError .evaluation

/-- The report of a match without a text, which gets as far as the first terminal. -/
def reportNoText (g : Grammar) : Result :=
  match g.reachTerminal with
  | .ok _ => .error .noValue
  | .error e => reportMatch g "" false (.error (.evaluation e))

/-- Matches a text under a grammar and prints the tree. -/
def parse (files : Files) (path : String) (source : TextSource) (complete debug : Bool) : Result :=
  match loadGrammar files path with
  | .error p => p.report
  | .ok g => Report.announce debug [readyLine g] <|
    if source = .noText then reportNoText g
    else match readSource files source with
      | .error p => p.report
      | .ok src => reportMatch g src debug (findMatch g src complete)

variable [Points.Symbols]

/-- A point on a line. -/
def pointLine (p : Point) : String := General.render p.x ++ "," ++ General.render p.y

/-- The report of points that were looked for. -/
def reportPoints (src : String) : Except Points.Error (List Point) → Result
  | .ok points => Report.success (points.map pointLine)
  | .error (.unmatched (.mismatch m)) => Report.failure 1 ["[NO MATCH]", m.message src]
  | .error (.unmatched (.evaluation e)) => .error (.evaluation e)
  | .error (.untransformed e) => .error (.points e)

/-- The tree of a point list, as far as it goes, for debugging. -/
def pointTree (src : String) : Except Crash (List String) :=
  let text := Text.ofString src
  match Points.grammar.parse text with
  | .error e => .error (.evaluation e)
  | .ok none => .ok []
  | .ok (some t) => .ok (treeLines t text)

/-- Lists the points of a text. -/
def points (files : Files) (source : TextSource) (debug : Bool) : Result :=
  match readSource files source with
  | .error p => p.report
  | .ok src => do
    let lines ← if debug then pointTree src else pure []
    Report.announce debug lines (reportPoints src (Points.parse src))

/-- Runs a request. -/
def Request.run (files : Files) : Request → Result
  | .check path debug => Command.check files path debug
  | .parse path source complete debug => Command.parse files path source complete debug
  | .points source debug => Command.points files source debug

/-- Lines as they are written, each with a line feed. -/
def written (lines : List String) : String := String.join (lines.map (·.push '\n'))

end OrderedGrammar.Command
