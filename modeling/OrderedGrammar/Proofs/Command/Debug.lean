import OrderedGrammar.Proofs.Command.Sources
import OrderedGrammar.Proofs.Points.Depth

/-!
Commands with and without debug. A report says nothing about the lines that were written before a
crash, so commands are followed line by line here (`Transcript`), with any number of levels for
nested evaluations; `Request.run_eq_result` ties this to how they run. What debug does on its way,
describing all rules and parsing a list of points once more, goes wrong only where the command goes
wrong anyway and in the same way. Its lines come first (`Transcript.Extends`), and so the error
output under debug ends with what is written without.
-/

namespace OrderedGrammar

namespace Command

/-! ### Transcripts -/

/-- The lines that have been written to the error output, and how a command ends: with an exit code
and the lines of the output, or in a crash. -/
structure Transcript where
  errors : List String
  ending : Except Crash (Nat × List String)

namespace Transcript

/-- A crash before which nothing is written. -/
def crash (c : Crash) : Transcript := ⟨[], .error c⟩

/-- The lines of a report all at once. -/
def ofResult : Result → Transcript
  | .ok report => ⟨report.errors, .ok (report.code, report.output)⟩
  | .error c => crash c

/-- What is left of a transcript. -/
def result (t : Transcript) : Result := t.ending.map fun e => ⟨e.1, e.2, t.errors⟩

/-- Lines that are written first. -/
def after (t : Transcript) (lines : List String) : Transcript := ⟨lines ++ t.errors, t.ending⟩

/-- Lines that are written first, under debug only. -/
def announce (debug : Bool) (lines : List String) (t : Transcript) : Transcript :=
  if debug then t.after lines else t

variable {debug : Bool}

theorem result_ofResult (r : Result) : (ofResult r).result = r := by
  cases r <;> rfl

theorem result_after (t : Transcript) (lines : List String) :
    (t.after lines).result = Report.announce true lines t.result := by
  obtain ⟨errors, ending⟩ := t
  cases ending <;> rfl

theorem announce_false (lines : List String) (r : Result) :
    Report.announce false lines r = r := by
  cases r <;> rfl

theorem result_announce (lines : List String) (t : Transcript) :
    (t.announce debug lines).result = Report.announce debug lines t.result := by
  cases debug with
  | false => exact (announce_false lines t.result).symm
  | true => exact result_after t lines

/-- One transcript has further lines before those of the other, and ends alike. -/
def Extends (loud quiet : Transcript) : Prop := ∃ lines, loud = quiet.after lines

theorem Extends.rfl {t : Transcript} : t.Extends t := ⟨[], by rfl⟩

theorem Extends.after {loud quiet : Transcript} (h : loud.Extends quiet) (lines : List String) :
    (loud.after lines).Extends quiet := by
  obtain ⟨more, rfl⟩ := h
  exact ⟨lines ++ more, by simp [Transcript.after]⟩

end Transcript

theorem written_append (lines more : List String) :
    written (lines ++ more) = written lines ++ written more := by
  simp [written]

/-- The same request, with or without debug. -/
def Request.debugging (debug : Bool) : Request → Request
  | check path _ => check path debug
  | parse path source complete _ => parse path source complete debug
  | points source _ => points source debug

end Command

section Grammars

variable [Regex]

/-! ### What matching comes to -/

/-- A match of the whole text, by what parsing comes to. -/
def Grammar.required (g : Grammar) (text : Text) : Outcome → Except MatchError Tree
  | .error e => .error (.evaluation e)
  | .ok none => .error (.mismatch ⟨g.entry, 0⟩)
  | .ok (some t) => if t.isComplete text then .ok t else .error (.mismatch ⟨g.entry, t.stop⟩)

namespace Command

/-- The match that is looked for, by what parsing comes to. -/
def found (g : Grammar) (src : String) (complete : Bool) (parsed : Outcome) :
    Except MatchError (Option Tree) :=
  if complete then (g.required (.ofString src) parsed).map some else parsed.mapError .evaluation

theorem findMatch_eq (g : Grammar) (src : String) (complete : Bool) : findMatch g src complete =
    found g src complete (g.parseWithin Matching.depthLimit (.ofString src)) := by
  rfl

namespace Transcript

/-- Writes a line for each rule as soon as it is described. -/
def listRules (t : Transcript) : List (String × List Validator) → Transcript
  | [] => t
  | (name, alternatives) :: rules =>
    match Validator.describeAll alternatives with
    | .error e => crash (.description e)
    | .ok texts => (t.listRules rules).after [ruleLine name texts]

/-- Lists all rules, and then the rules that are referred to. -/
def listGrammar (g : Grammar) (t : Transcript) : Transcript :=
  let references := t.after ["[DEBUG] referenced: " ++ ", ".intercalate g.references]
  (references.listRules g.rules).after ["", "[RULES]", s!"Entry: {g.entry}"]

/-- Reads a grammar and counts its rules. -/
def check (files : Files) (path : String) (debug : Bool) : Transcript :=
  match loadGrammar files path with
  | .error p => ofResult p.report
  | .ok g =>
    let counts := ofResult (Report.success [checkLine g])
    announce debug [readyLine g] (if debug then counts.listGrammar g else counts)

/-- What comes of a match without a text. -/
def withoutText (g : Grammar) (depth : Nat) : Transcript :=
  match Matching.reach g depth (.ref g.entry) with
  | .ok _ => crash .noValue
  | .error e => ofResult (reportMatch g "" false (.error (.evaluation e)))

/-- Matches a text under a grammar. -/
def parse (files : Files) (depth : Nat) (path : String) (source : TextSource)
    (complete debug : Bool) : Transcript :=
  match loadGrammar files path with
  | .error p => ofResult p.report
  | .ok g => announce debug [readyLine g] <|
    if source = .noText then withoutText g depth
    else match readSource files source with
      | .error p => ofResult p.report
      | .ok src =>
        let parsed := g.parseWithin depth (.ofString src)
        ofResult (reportMatch g src debug (found g src complete parsed))

variable {files : Files} {depth : Nat} {path : String} {source : TextSource} {debug complete : Bool}

/-! ### Transcripts and runs -/

/-- Rules that can all be described are listed line by line. -/
theorem listRules_eq (t : Transcript) {rules : List (String × List Validator)}
    {described : List (String × List String)}
    (h : (rules.mapM fun rule => do return (rule.1, ← Validator.describeAll rule.2)) =
      .ok described) :
    t.listRules rules = t.after (described.map fun r => ruleLine r.1 r.2) := by
  induction rules generalizing described with
  | nil =>
    obtain rfl : [] = described := Except.ok.inj h
    rfl
  | cons rule rest ih =>
    rw [List.mapM_cons] at h
    obtain ⟨line, hrule, h⟩ := bind_eq_ok.mp h
    obtain ⟨texts, htexts, hline⟩ := bind_eq_ok.mp hrule
    obtain ⟨others, hrest, h⟩ := bind_eq_ok.mp h
    obtain rfl := Except.ok.inj hline
    obtain rfl := Except.ok.inj h
    rw [listRules, htexts, ih hrest]
    rfl

theorem listGrammar_eq (t : Transcript) {g : Grammar} {lines : List String}
    (h : ruleLines g = .ok lines) : t.listGrammar g = t.after lines := by
  obtain ⟨described, hg, h⟩ := bind_eq_ok.mp h
  obtain rfl := Except.ok.inj h
  rw [listGrammar, listRules_eq _ hg]
  simp [after]

theorem result_check : (check files path debug).result = Command.check files path debug := by
  unfold check Command.check
  cases hl : loadGrammar files path with
  | error p => exact result_ofResult p.report
  | ok g =>
    obtain ⟨src, hr⟩ := read_of_loadGrammar hl
    obtain ⟨lines, hlines⟩ := ruleLines_ok hr
    cases debug with
    | false => rfl
    | true =>
      simp only [if_true, hlines, listGrammar_eq _ hlines]
      rfl

theorem result_withoutText (g : Grammar) :
    (withoutText g Matching.depthLimit).result = reportNoText g := by
  unfold withoutText reportNoText Grammar.reachTerminal
  cases Matching.reach g Matching.depthLimit (.ref g.entry) with
  | error e => exact result_ofResult _
  | ok _ => rfl

theorem result_parse : (parse files Matching.depthLimit path source complete debug).result =
    Command.parse files path source complete debug := by
  unfold parse Command.parse
  cases loadGrammar files path with
  | error p => exact result_ofResult p.report
  | ok g =>
    dsimp only
    rw [result_announce]
    congr 1
    split
    · exact result_withoutText g
    · cases readSource files source with
      | error p => exact result_ofResult p.report
      | ok src =>
        dsimp only
        rw [findMatch_eq]
        exact result_ofResult _

/-! ### Lines that debug adds -/

/-- A rule of a grammar that has been read can always be described. -/
theorem check_extends : (check files path true).Extends (check files path false) := by
  unfold check
  cases hl : loadGrammar files path with
  | error p => exact .rfl
  | ok g =>
    obtain ⟨src, hr⟩ := read_of_loadGrammar hl
    obtain ⟨lines, hlines⟩ := ruleLines_ok hr
    have listed := listGrammar_eq (ofResult (Report.success [checkLine g])) hlines
    exact Extends.after ⟨lines, listed⟩ [readyLine g]

/-- The line for a match is added only where there is one. -/
theorem reportMatch_extends (g : Grammar) (src : String) (o : Except MatchError (Option Tree)) :
    (ofResult (reportMatch g src true o)).Extends (ofResult (reportMatch g src false o)) := by
  rcases o with (e | m) | _ | t
  · cases e <;> exact .rfl
  · exact .rfl
  · exact .rfl
  · exact ⟨[consumedLine t (.ofString src)], by rfl⟩

theorem parse_extends :
    (parse files depth path source complete true).Extends
      (parse files depth path source complete false) := by
  unfold parse
  cases loadGrammar files path with
  | error p => exact .rfl
  | ok g =>
    refine Extends.after ?_ [readyLine g]
    dsimp only
    split
    · exact .rfl
    · cases readSource files source with
      | error p => exact .rfl
      | ok src => exact reportMatch_extends g src _

end Transcript

end Command

end Grammars

/-! ### Points -/

variable [Regex] [Points.Symbols]

/-- The value of a point list, by what parsing comes to. -/
def Points.valueOf (src : String) (parsed : Outcome) : Except Error Value := do
  let text := Text.ofString src
  let tree ← (grammar.required text parsed).mapError .unmatched
  (Transform.apply transforms text tree).1.mapError .untransformed

/-- The points of a list, by what parsing comes to. -/
def Points.pointsOf (src : String) (parsed : Outcome) : Except Error (List Point) :=
  (valueOf src parsed).map ofValue

theorem Points.parse_eq (src : String) : parse src =
    pointsOf src (grammar.parseWithin Matching.depthLimit (.ofString src)) := by
  rfl

namespace Command

namespace Transcript

/-- Shows the tree of a point list, if there is one. -/
def showPoints (src : String) (t : Transcript) : Outcome → Transcript
  | .error e => crash (.evaluation e)
  | .ok none => t
  | .ok (some root) => t.after (treeLines root (.ofString src))

/-- Lists points. -/
def points (files : Files) (depth : Nat) (source : TextSource) (debug : Bool) : Transcript :=
  match readSource files source with
  | .error p => ofResult p.report
  | .ok src =>
    let parsed := Points.grammar.parseWithin depth (.ofString src)
    let listed := ofResult (reportPoints src (Points.pointsOf src parsed))
    if debug then listed.showPoints src parsed else listed

variable {files : Files} {depth : Nat} {source : TextSource} {debug : Bool}

theorem result_showPoints (t : Transcript) (src : String) :
    (t.showPoints src (Points.grammar.parseWithin Matching.depthLimit (.ofString src))).result =
      (pointTree src).bind fun lines => Report.announce true lines t.result := by
  unfold pointTree
  simp only [Grammar.parse_eq]
  generalize Points.grammar.parseWithin Matching.depthLimit (.ofString src) = parsed
  rcases parsed with e | _ | root
  · rfl
  · exact result_after t []
  · exact result_after t _

theorem result_points :
    (points files Matching.depthLimit source debug).result = Command.points files source debug := by
  unfold points Command.points
  cases readSource files source with
  | error p => exact result_ofResult p.report
  | ok src =>
    dsimp only
    rw [Points.parse_eq]
    cases debug with
    | false => exact (result_ofResult _).trans (announce_false [] _).symm
    | true =>
      rw [if_pos rfl, result_showPoints, result_ofResult]
      rfl

/-- Parsing a list once more goes wrong only where listing the points does, and in the same way. -/
theorem points_extends :
    (points files depth source true).Extends (points files depth source false) := by
  unfold points
  cases readSource files source with
  | error p => exact .rfl
  | ok src =>
    dsimp only
    rw [if_pos rfl, if_neg Bool.false_ne_true]
    -- a parse that fails is the crash that listing the points ends in
    rcases Points.grammar.parseWithin depth (.ofString src) with e | _ | root
    · exact .rfl
    · exact .rfl
    · exact ⟨treeLines root (.ofString src), by rfl⟩

end Transcript

/-! ### Requests -/

/-- The transcript of a request, with a number of levels for nested evaluations. -/
def Request.transcript (files : Files) (depth : Nat) : Request → Transcript
  | check path debug => .check files path debug
  | parse path source complete debug => .parse files depth path source complete debug
  | points source debug => .points files depth source debug

/-- What is left of its transcript is what a request comes to. -/
theorem Request.run_eq_result (files : Files) (r : Request) :
    r.run files = (r.transcript files Matching.depthLimit).result := by
  cases r with
  | check path debug => exact Transcript.result_check.symm
  | parse path source complete debug => exact Transcript.result_parse.symm
  | points source debug => exact Transcript.result_points.symm

theorem Request.transcript_extends (files : Files) (depth : Nat) (r : Request) :
    ((r.debugging true).transcript files depth).Extends
      ((r.debugging false).transcript files depth) := by
  cases r with
  | check path _ => exact Transcript.check_extends
  | parse path source complete _ => exact Transcript.parse_extends
  | points source _ => exact Transcript.points_extends

/-- Take any request and any files, with debug and without, and any number of levels for nested
evaluations. Both runs end with the same exit code and the same output, or in the same crash, and
what is written to the error output without debug stands at the end of what is written under debug,
also if there is a crash. These transcripts are those of the runs, as far as reports tell. -/
theorem debug_only_adds (files : Files) (r : Request) :
    (∀ depth, ((r.debugging true).transcript files depth).ending =
        ((r.debugging false).transcript files depth).ending ∧
      ∃ added, written ((r.debugging true).transcript files depth).errors =
        added ++ written ((r.debugging false).transcript files depth).errors) ∧
    ∀ debug, (r.debugging debug).run files =
      ((r.debugging debug).transcript files Matching.depthLimit).result := by
  refine ⟨fun depth => ?_, fun debug => Request.run_eq_result files _⟩
  obtain ⟨lines, h⟩ := r.transcript_extends files depth
  rw [h]
  exact ⟨rfl, written lines, written_append lines _⟩

end Command

end OrderedGrammar
