import OrderedGrammar.Proofs.Command.Sources
import OrderedGrammar.Proofs.Number.Shown

/-!
Exit codes of commands. A command is faulty (code 2) if the grammar or the input cannot be had, or
an undeclared rule is met; otherwise it is unmatched (code 1) if there is no match of the kind asked
for; otherwise it succeeds (code 0). Only on success anything is written to the output, and on
failure the errors say why (`exit_codes`). `Settles` is what a command has to come to; it is shown
for each of the three commands.
-/

namespace OrderedGrammar.Command

/-! ### What is promised -/

namespace Request

/-- The names of the files that a request reads. -/
def fileNames : Request → List String
  | check path _ => [path]
  | parse path (.file input) _ _ => [path, input]
  | parse path _ _ _ => [path]
  | points (.file input) _ => [input]
  | points _ _ => []

/-- The same request, with or without asking for a complete match. -/
def completing (complete : Bool) : Request → Request
  | parse path source _ debug => parse path source complete debug
  | r => r

theorem fileNames_completing (r : Request) (complete : Bool) :
    (r.completing complete).fileNames = r.fileNames := by
  cases r with
  | parse path source _ debug => cases source <;> rfl
  | _ => rfl

variable [Regex]

/-- No value is missing where one is read: the text or the name of the input file is there, or the
grammar is refused before. -/
def HasValue (files : Files) : Request → Prop
  | check _ _ => True
  | parse path source _ _ => (source ≠ .noText ∧ source ≠ .noFile) ∨ Refused files path
  | points source _ => source ≠ .noText ∧ source ≠ .noFile

/-- Parsing the text does not run too deep. -/
def Ends (files : Files) : Request → Prop
  | parse path source _ _ => ∀ g src, Loads files path g → Supplies files source src →
      g.parse (.ofString src) ≠ .error .depthExceeded
  | _ => True

/-- The grammar file cannot be opened or is rejected, or the input file cannot be opened, or parsing
meets a rule that is not declared. -/
def Faulty (files : Files) : Request → Prop
  | check path _ => Refused files path
  | parse path source _ _ => Refused files path ∨ Unreadable files source ∨
      ∃ g src name, Loads files path g ∧ Supplies files source src ∧
        g.parse (.ofString src) = .error (.undefinedRule name)
  | points source _ => Unreadable files source

variable [Points.Symbols]

/-- There is no match, or none of the whole text where that is asked for. -/
def Unmatched (files : Files) : Request → Prop
  | check _ _ => False
  | parse path source complete _ => ∃ g src, Loads files path g ∧ Supplies files source src ∧
      (g.parse (.ofString src) = .ok none ∨
        complete ∧ ∃ t, g.parse (.ofString src) = .ok (some t) ∧ t.stop ≠ (Text.ofString src).size)
  | points source _ => ∃ src m, Supplies files source src ∧
      Points.parse src = .error (.unmatched (.mismatch m))

/-- What is written on success: the counts of the grammar; the tree of the match, whether a complete
one is asked for or not; the points, one on each line. -/
def Prints (files : Files) : Request → String → Prop
  | check path _, out => ∃ g, Loads files path g ∧ out = checkLine g ++ "\n"
  | parse path source _ _, out => ∃ g src t, Loads files path g ∧ Supplies files source src ∧
      g.parse (.ofString src) = .ok (some t) ∧ out = t.format (.ofString src) ++ "\n"
  | points source _, out => ∃ src points, Supplies files source src ∧
      Points.parse src = .ok points ∧ out = String.join (points.map fun p => pointLine p ++ "\n") ∧
      ∀ p ∈ points, '\n' ∉ (pointLine p).toList

end Request

/-! ### Failures -/

/-- A failure with this code, which is told in the errors and writes nothing to the output. -/
def Fails (code : Nat) (x : Result) : Prop := ∃ errors, errors ≠ [] ∧ x = .ok ⟨code, [], errors⟩

section Failures

variable {x : Result} {code : Nat}

theorem fails_failure {line : String} {lines : List String} :
    Fails code (Report.failure code (line :: lines)) :=
  ⟨_, List.cons_ne_nil _ _, rfl⟩

theorem Fails.announce (h : Fails code x) (debug : Bool) (lines : List String) :
    Fails code (Report.announce debug lines x) := by
  obtain ⟨errors, hne, rfl⟩ := h
  exact ⟨_, List.append_ne_nil_of_right_ne_nil _ hne, rfl⟩

theorem written_singleton (line : String) : written [line] = line ++ "\n" := by
  simp [written, String.join, String.push_eq_append]

theorem written_ne_empty {lines : List String} (h : lines ≠ []) : written lines ≠ "" := by
  obtain ⟨line, lines, rfl⟩ := List.exists_cons_of_ne_nil h
  intro empty
  have letters := congrArg String.toList empty
  simp [written] at letters

/-- Each line is written with a line feed. -/
theorem written_map {α : Type} (f : α → String) (as : List α) :
    written (as.map f) = String.join (as.map fun a => f a ++ "\n") := by
  rw [written, List.map_map]
  refine congrArg String.join (List.map_congr_left fun a _ => ?_)
  exact String.push_eq_append '\n'

end Failures

/-! ### Reports -/

section Reports

variable [Regex] [Points.Symbols]

/-- A report whose code is the one that the files call for, and that writes to the output on success
only, what is promised then. -/
structure Report.Answers (files : Files) (r : Request) (report : Report) : Prop where
  two : report.code = 2 ↔ r.Faulty files
  one : report.code = 1 ↔ ¬ r.Faulty files ∧ r.Unmatched files
  zero : report.code = 0 ↔ ¬ r.Faulty files ∧ ¬ r.Unmatched files
  failure : report.code ≠ 0 → written report.output = "" ∧ written report.errors ≠ ""
  success : report.code = 0 → r.Prints files (written report.output)

/-- The result is the one that the files call for. -/
inductive Settles (files : Files) (r : Request) (x : Result) : Prop
  | faulty (h : r.Faulty files) (hx : Fails 2 x)
  | unmatched (sound : ¬ r.Faulty files) (h : r.Unmatched files) (hx : Fails 1 x)
  | success {output errors} (sound : ¬ r.Faulty files) (matched : ¬ r.Unmatched files)
    (hx : x = .ok ⟨0, output, errors⟩) (prints : r.Prints files (written output))

variable {files : Files} {r : Request} {x : Result} {code : Nat}

/-- Lines that are written first make no difference. -/
theorem Settles.announce (h : Settles files r x) (debug : Bool) (lines : List String) :
    Settles files r (Report.announce debug lines x) := by
  cases h with
  | faulty h hx => exact .faulty h (hx.announce debug lines)
  | unmatched sound h hx => exact .unmatched sound h (hx.announce debug lines)
  | success sound matched hx prints =>
    subst hx
    exact .success sound matched rfl prints

/-- A failure answers a request if its code is the one that is called for. -/
theorem Fails.answers (hx : Fails code x) (failed : code ≠ 0) (two : code = 2 ↔ r.Faulty files)
    (one : code = 1 ↔ ¬ r.Faulty files ∧ r.Unmatched files)
    (called : r.Faulty files ∨ r.Unmatched files) :
    ∃ report : Report, x = .ok report ∧ report.Answers files r := by
  obtain ⟨errors, hne, rfl⟩ := hx
  refine ⟨_, rfl, two, one, ?_, ?_, ?_⟩
  · refine iff_of_false failed ?_
    rintro ⟨sound, matched⟩
    exact called.elim sound matched
  · intro _
    exact ⟨rfl, written_ne_empty hne⟩
  · intro zero
    exact absurd zero failed

/-- What a command has to come to is a report that answers the request. -/
theorem Settles.answers (h : Settles files r x) : ∃ report : Report, x = .ok report ∧
    report.Answers files r := by
  cases h with
  | faulty h hx => exact hx.answers (by decide) (by simp [h]) (by simp [h]) (Or.inl h)
  | unmatched sound h hx =>
    exact hx.answers (by decide) (by simp [sound]) (by simp [sound, h]) (Or.inr h)
  | success sound matched hx prints =>
    subst hx
    refine ⟨_, rfl, by simp [sound], by simp [matched], by simp [sound, matched], ?_, ?_⟩
    · intro failed
      exact absurd rfl failed
    · intro _
      exact prints

end Reports

/-! ### Matches -/

section Matches

variable [Regex] {files : Files} {path src : String} {source : TextSource} {complete debug : Bool}
  {g : Grammar}

/-- Once the grammar is loaded and the text is supplied, a request is faulty only if parsing meets a
rule that is not declared. -/
theorem faulty_parse (loads : Loads files path g) (supplies : Supplies files source src) :
    (Request.parse path source complete debug).Faulty files ↔
      ∃ name, g.parse (.ofString src) = .error (.undefinedRule name) := by
  constructor
  · rintro (refused | unreadable | ⟨g', src', name, loads', supplies', failed⟩)
    · exact absurd refused loads.not_refused
    · exact absurd unreadable supplies.readable
    · obtain rfl := loads.unique loads'
      obtain rfl := supplies.unique supplies'
      exact ⟨name, failed⟩
  · rintro ⟨name, failed⟩
    exact Or.inr (Or.inr ⟨g, src, name, loads, supplies, failed⟩)

theorem findMatch_of_error {e : EvalError} (hp : g.parse (.ofString src) = .error e) :
    findMatch g src complete = .error (.evaluation e) := by
  cases complete with
  | true =>
    rw [findMatch, if_pos rfl, Grammar.requireMatch, hp]
    rfl
  | false =>
    rw [findMatch, if_neg Bool.false_ne_true, hp]
    rfl

/-- No match is a mismatch if a complete one is asked for. -/
theorem findMatch_of_none (hp : g.parse (.ofString src) = .ok none) :
    findMatch g src complete =
      if complete then .error (.mismatch ⟨g.entry, 0⟩) else .ok none := by
  cases complete with
  | true =>
    rw [findMatch, if_pos rfl, Grammar.requireMatch, hp]
    rfl
  | false =>
    rw [findMatch, if_neg Bool.false_ne_true, hp]
    rfl

/-- The match that is looked for is there unless it stops short of what is asked. -/
theorem findMatch_of_parse {t : Tree} (hp : g.parse (.ofString src) = .ok (some t)) :
    findMatch g src complete =
      if complete ∧ t.stop ≠ (Text.ofString src).size then .error (.mismatch ⟨g.entry, t.stop⟩)
      else .ok (some t) := by
  cases complete with
  | true =>
    rw [findMatch, if_pos rfl, requireMatch_of_parse hp]
    by_cases whole : t.stop = (Text.ofString src).size
    · simp [whole, Except.map]
    · simp [whole, Except.map]
  | false =>
    rw [findMatch, if_neg Bool.false_ne_true, hp]
    simp [Except.mapError]

variable [Points.Symbols]

theorem unmatched_parse (loads : Loads files path g) (supplies : Supplies files source src) :
    (Request.parse path source complete debug).Unmatched files ↔
      g.parse (.ofString src) = .ok none ∨ complete ∧
        ∃ t, g.parse (.ofString src) = .ok (some t) ∧ t.stop ≠ (Text.ofString src).size := by
  constructor
  · rintro ⟨g', src', loads', supplies', missing⟩
    obtain rfl := loads.unique loads'
    obtain rfl := supplies.unique supplies'
    exact missing
  · intro missing
    exact ⟨g, src, loads, supplies, missing⟩

/-- All is said by the parse then. -/
theorem settles_match [LawfulRegex] (loads : Loads files path g)
    (supplies : Supplies files source src)
    (ends : g.parse (.ofString src) ≠ .error .depthExceeded) :
    Settles files (.parse path source complete debug)
      (reportMatch g src debug (findMatch g src complete)) := by
  have faulty_iff : (Request.parse path source complete debug).Faulty files ↔ _ :=
    faulty_parse loads supplies
  have unmatched_iff : (Request.parse path source complete debug).Unmatched files ↔ _ :=
    unmatched_parse loads supplies
  have ⟨_, _, hr⟩ := loads
  rcases hp : g.parse (.ofString src) with e | _ | t
  · obtain ⟨name, rfl⟩ := Grammar.error_of_read hr ends hp
    rw [findMatch_of_error hp]
    exact .faulty (faulty_iff.mpr ⟨name, hp⟩) fails_failure
  · refine .unmatched (by simp [faulty_iff, hp]) (unmatched_iff.mpr (Or.inl hp)) ?_
    rw [findMatch_of_none hp]
    split
    · exact fails_failure
    · exact fails_failure
  · have sound : ¬ (Request.parse path source complete debug).Faulty files := by
      simp [faulty_iff, hp]
    rw [findMatch_of_parse hp]
    by_cases short : complete ∧ t.stop ≠ (Text.ofString src).size
    · rw [if_pos short]
      exact .unmatched sound (unmatched_iff.mpr (Or.inr ⟨short.1, t, hp, short.2⟩)) fails_failure
    · have matched : ¬ (Request.parse path source complete debug).Unmatched files := by
        simpa [unmatched_iff, hp] using short
      have prints : (Request.parse path source complete debug).Prints files
          (written [t.format (.ofString src)]) :=
        ⟨g, src, t, loads, supplies, hp, written_singleton _⟩
      rw [if_neg short]
      exact Settles.announce (.success sound matched rfl prints) debug _

end Matches

/-! ### Points -/

section Points

variable [Regex] [Points.Symbols] [LawfulRegex] [Points.LawfulSymbols]

variable {files : Files} {src : String} {source : TextSource} {debug : Bool}

/-- Once the text is supplied, all is said by the points that it gives. -/
theorem settles_reportPoints (supplies : Supplies files source src) :
    Settles files (.points source debug) (reportPoints src (Points.parse src)) := by
  have sound : ¬ (Request.points source debug).Faulty files := supplies.readable
  rcases Points.parse_cases src with ⟨points, hp⟩ | ⟨m, hp⟩
  · have matched : ¬ (Request.points source debug).Unmatched files := by
      rintro ⟨src', m, supplies', refused⟩
      obtain rfl := supplies.unique supplies'
      cases hp.symm.trans refused
    have oneLine : ∀ p ∈ points, '\n' ∉ (pointLine p).toList := by
      intro p _
      simp [pointLine, General.lineFeed_notMem_render]
    have prints : (Request.points source debug).Prints files (written (points.map pointLine)) :=
      ⟨src, points, supplies, hp, written_map pointLine points, oneLine⟩
    rw [hp]
    exact .success sound matched rfl prints
  · rw [hp]
    exact .unmatched sound ⟨src, m, supplies, hp⟩ fails_failure

/-- The tree of a point list can always be shown. -/
theorem pointTree_ok (src : String) : ∃ lines, pointTree src = .ok lines := by
  obtain ⟨root, _, hp, -⟩ := Points.parse_longest (.ofString src)
  refine ⟨treeLines root (.ofString src), ?_⟩
  unfold pointTree
  simp only [hp]

end Points

/-! ### Reading files -/

section Reading

variable {files : Files} {path : String} {source : TextSource} {debug complete : Bool}

theorem nul_notMem_tidyPath (hn : '\x00' ∉ path.toList) : '\x00' ∉ (tidyPath path).toList := by
  intro h
  rcases mem_tidyPath h with h | h | h
  · exact hn h
  · cases h
  · cases h

variable (decodes : ∀ path bytes, files path = .ok bytes → (Source.decodeText? bytes).isSome)

include decodes

theorem readFile_cases (hn : '\x00' ∉ path.toList) :
    (∃ e, readFile files path = .error (.file path e) ∧ Closed files path) ∨
      ∃ src, readFile files path = .ok src ∧ Holds files path src := by
  unfold readFile
  rw [if_neg (by simpa using hn)]
  cases hb : files path with
  | error e => exact Or.inl ⟨e, rfl, e, hb⟩
  | ok bytes =>
    obtain ⟨src, hs⟩ := Option.isSome_iff_exists.mp (decodes path bytes hb)
    refine Or.inr ⟨src, ?_, bytes, hb, hs⟩
    simp only [hs]

theorem readSource_cases (value : source ≠ .noText ∧ source ≠ .noFile)
    (hn : ∀ input, source = .file input → '\x00' ∉ input.toList) :
    (∃ p, readSource files source = .error p ∧ Unreadable files source ∧ Fails 2 p.report) ∨
      ∃ src, readSource files source = .ok src ∧ Supplies files source src := by
  cases source with
  | text s => exact Or.inr ⟨s, rfl, rfl⟩
  | file input =>
    rcases readFile_cases decodes (hn input rfl) with ⟨e, hf, closed⟩ | ⟨src, hf, holds⟩
    · exact Or.inl ⟨_, hf, closed, fails_failure⟩
    · exact Or.inr ⟨src, hf, holds⟩
  | noText => exact absurd rfl value.1
  | noFile => exact absurd rfl value.2

theorem loadGrammar_cases [Regex] (hn : '\x00' ∉ path.toList) :
    (∃ p, loadGrammar files path = .error p ∧ Refused files path ∧ Fails 2 p.report) ∨
      ∃ g, loadGrammar files path = .ok g ∧ Loads files path g := by
  rcases readFile_cases decodes (nul_notMem_tidyPath hn) with ⟨e, hf, closed⟩ | ⟨src, hf, holds⟩
  · exact Or.inl ⟨_, loadGrammar_of_error hf, Or.inl closed, fails_failure⟩
  · rw [loadGrammar_of_readFile hf]
    cases hr : Notation.read src with
    | error e => exact Or.inl ⟨_, rfl, Or.inr ⟨src, e, holds, hr⟩, fails_failure⟩
    | ok g => exact Or.inr ⟨g, rfl, src, holds, hr⟩

/-! ### The commands -/

variable [Regex] [Points.Symbols]

/-- A grammar that is loaded can be listed. -/
theorem settles_check (hn : '\x00' ∉ path.toList) :
    Settles files (.check path debug) (check files path debug) := by
  unfold check
  rcases loadGrammar_cases decodes hn with ⟨p, hl, refused, fails⟩ | ⟨g, hl, loads⟩
  · rw [hl]
    exact .faulty refused fails
  · have ⟨src, _, hr⟩ := loads
    obtain ⟨lines, hlines⟩ := ruleLines_ok hr
    have prints : (Request.check path debug).Prints files (written [checkLine g]) :=
      ⟨g, loads, written_singleton _⟩
    have settles : Settles files (.check path debug) (Report.success [checkLine g]) :=
      .success loads.not_refused id rfl prints
    rw [hl]
    cases debug with
    | false => exact settles.announce false _
    | true =>
      dsimp only
      rw [hlines]
      exact settles.announce true _

theorem settles_parse [LawfulRegex]
    (names : ∀ name ∈ (Request.parse path source complete debug).fileNames, '\x00' ∉ name.toList)
    (value : (Request.parse path source complete debug).HasValue files)
    (ends : (Request.parse path source complete debug).Ends files) :
    Settles files (.parse path source complete debug) (parse files path source complete debug) := by
  have grammarName : '\x00' ∉ path.toList := by
    refine names path ?_
    cases source <;> exact List.mem_cons_self
  have inputName : ∀ input, source = .file input → '\x00' ∉ input.toList := by
    rintro input rfl
    exact names input (by simp [Request.fileNames])
  unfold parse
  rcases loadGrammar_cases decodes grammarName with ⟨p, hl, refused, fails⟩ | ⟨g, hl, loads⟩
  · rw [hl]
    exact .faulty (Or.inl refused) fails
  · have given : source ≠ .noText ∧ source ≠ .noFile := value.resolve_right loads.not_refused
    rw [hl]
    refine Settles.announce ?_ debug _
    rw [if_neg given.1]
    rcases readSource_cases decodes given inputName with
      ⟨p, hs, unreadable, fails⟩ | ⟨src, hs, supplies⟩
    · rw [hs]
      exact .faulty (Or.inr (Or.inl unreadable)) fails
    · rw [hs]
      exact settles_match loads supplies (ends g src loads supplies)

variable [LawfulRegex] [Points.LawfulSymbols]

theorem settles_points (names : ∀ name ∈ (Request.points source debug).fileNames,
      '\x00' ∉ name.toList) (value : (Request.points source debug).HasValue files) :
    Settles files (.points source debug) (points files source debug) := by
  have inputName : ∀ input, source = .file input → '\x00' ∉ input.toList := by
    rintro input rfl
    exact names input (by simp [Request.fileNames])
  unfold points
  rcases readSource_cases decodes value inputName with
    ⟨p, hs, unreadable, fails⟩ | ⟨src, hs, supplies⟩
  · rw [hs]
    exact .faulty unreadable fails
  · obtain ⟨lines, hlines⟩ := pointTree_ok src
    rw [hs]
    cases debug with
    | false => exact (settles_reportPoints supplies).announce false _
    | true =>
      dsimp only
      rw [hlines]
      exact (settles_reportPoints supplies).announce true lines

/-- Every command comes to what the files call for. -/
theorem settles (r : Request) (names : ∀ name ∈ r.fileNames, '\x00' ∉ name.toList)
    (value : r.HasValue files) (ends : r.Ends files) : Settles files r (r.run files) := by
  cases r with
  | check path debug => exact settles_check decodes (names path List.mem_cons_self)
  | parse path source complete debug => exact settles_parse decodes names value ends
  | points source debug => exact settles_points decodes names value

end Reading

section Answers

variable [Regex] [Points.Symbols]

/-- What is printed on success does not depend on whether a complete match is asked for. -/
theorem Request.Prints.completing {files : Files} {r : Request} {complete : Bool}
    {out out' : String} (h : r.Prints files out)
    (h' : (r.completing complete).Prints files out') : out' = out := by
  cases r with
  | check path debug =>
    obtain ⟨g, loads, rfl⟩ := h
    obtain ⟨g', loads', rfl⟩ := h'
    rw [loads.unique loads']
  | parse path source _ debug =>
    obtain ⟨g, src, t, loads, supplies, hp, rfl⟩ := h
    obtain ⟨g', src', t', loads', supplies', hp', rfl⟩ := h'
    obtain rfl := loads.unique loads'
    obtain rfl := supplies.unique supplies'
    cases hp.symm.trans hp'
    rfl
  | points source debug =>
    obtain ⟨src, points, supplies, hp, rfl, -⟩ := h
    obtain ⟨src', points', supplies', hp', rfl, -⟩ := h'
    obtain rfl := supplies.unique supplies'
    cases hp.symm.trans hp'
    rfl

/-- A request leads to a report, if files decode, no value is missing and parsing does not run too
deep. Its code follows from the files, in this order: faulty, unmatched, success. Nothing is written
to the output but on success, and then it is what is promised; asking for a complete match does not
change it. -/
theorem exit_codes [LawfulRegex] [Points.LawfulSymbols] {r : Request} {files : Files}
    (names : ∀ name ∈ r.fileNames, '\x00' ∉ name.toList)
    (decodes : ∀ path bytes, files path = .ok bytes → (Source.decodeText? bytes).isSome)
    (value : r.HasValue files) (ends : r.Ends files) :
    ∃ report : Report, r.run files = .ok report ∧ report.Answers files r ∧
      ∀ complete report', (r.completing complete).run files = .ok report' →
        report.code = 0 → report'.code = 0 → written report'.output = written report.output := by
  obtain ⟨report, hrun, answers⟩ := (settles decodes r names value ends).answers
  refine ⟨report, hrun, answers, ?_⟩
  intro complete report' hrun' zero zero'
  have settled : Settles files (r.completing complete) ((r.completing complete).run files) := by
    refine settles decodes _ ?_ ?_ ?_
    · rwa [Request.fileNames_completing]
    · cases r <;> exact value
    · cases r <;> exact ends
  obtain ⟨report'', hrun'', answers'⟩ := settled.answers
  cases hrun'.symm.trans hrun''
  exact (answers.success zero).completing (answers'.success zero')

end Answers

/-- The same grammar in every file. -/
def oneGrammar : Files := fun _ => .ok "x : 'x' ;".toUTF8

theorem oneGrammar_decodes : Source.decodeText? "x : 'x' ;".toUTF8 = some "x : 'x' ;" := by
  rw [Source.decodeText?_toUTF8]
  rfl

theorem oneGrammar_loads (path : String) :
    Loads oneGrammar path ⟨"x", [("x", [.terminal (.ofText "x")])]⟩ :=
  ⟨_, ⟨_, rfl, oneGrammar_decodes⟩, by rfl⟩

/-- A complete match is asked for, and the text goes on after the match. -/
theorem exit_code_of_longer_text :
    Request.ofArguments ["parse", "x.g", "--text", "xy", "--complete"] =
        .ok (.parse "x.g" (.text "xy") true false) ∧
      ∃ report : Report,
        (Request.parse "x.g" (.text "xy") true false).run oneGrammar = .ok report ∧
          report.code = 1 ∧ written report.output = "" := by
  have accepted : Request.ofArguments ["parse", "x.g", "--text", "xy", "--complete"] =
      .ok (.parse "x.g" (.text "xy") true false) := by rfl
  have decodes : ∀ path bytes, oneGrammar path = .ok bytes →
      (Source.decodeText? bytes).isSome := by
    rintro _ _ ⟨⟩
    rw [oneGrammar_decodes]
    rfl
  have parsed : Grammar.parse ⟨"x", [("x", [.terminal (.ofText "x")])]⟩ (.ofString "xy") =
      .ok (some (.text ⟨"x", true, 0, 1⟩ "x")) := by rfl
  have loads := oneGrammar_loads "x.g"
  have supplies : Supplies oneGrammar (.text "xy") "xy" := rfl
  have ends : (Request.parse "x.g" (.text "xy") true false).Ends oneGrammar := by
    rintro g src loads' rfl
    rw [loads'.unique loads, parsed]
    simp
  have value : (Request.parse "x.g" (.text "xy") true false).HasValue oneGrammar :=
    Or.inl (by simp)
  obtain ⟨report, hrun, answers, -⟩ :=
    exit_codes (by simp [Request.fileNames]) decodes value ends
  have one : report.code = 1 := by
    refine answers.one.mpr ⟨?_, ?_⟩
    · rw [faulty_parse loads supplies, parsed]
      simp
    · exact (unmatched_parse loads supplies).mpr (Or.inr ⟨rfl, _, parsed, by decide⟩)
  exact ⟨accepted, report, hrun, one, (answers.failure (by rw [one]; decide)).1⟩

/-- Two dashes that are attached to an option are dropped, and no report is made without a text. -/
theorem dropped_value_not_reported : ∃ r,
    Request.ofArguments ["points", "--text=--"] = .ok r ∧
      ∀ files report, r.run files ≠ .ok report := by
  refine ⟨.points .noText false, by rfl, ?_⟩
  rintro files report ⟨⟩

end OrderedGrammar.Command
