import OrderedGrammar.Proofs.Command.Debug
import OrderedGrammar.Proofs.Command.ExitCodes
import OrderedGrammar.Proofs.Command.Options
import OrderedGrammar.Proofs.Source.LineEnds

/-!
Line ends of the files that commands read. A file is loaded with its line ends unified, a grammar
and an input in the same way, so it does not matter how they are written; and a command that reads
its input from a file behaves as if it were given the text that the file is loaded as
(`line_ends_unified`).
-/

namespace OrderedGrammar.Command

open Source

/-! ### Files -/

section Files

variable {files : Files} {path : String} {s t : String}

theorem readFile_eq (hn : '\x00' ∉ path.toList) (hs : files path = .ok s.toUTF8)
    (ht : t.toList = unifyLineEnds s.toList) : readFile files path = .ok t := by
  rw [readFile, if_neg (by simpa using hn), hs]
  simp only [decodeText?_eq ht]

/-- A grammar is read from the text that its file is loaded as. -/
theorem loadGrammar_eq [Regex] (hn : '\x00' ∉ path.toList)
    (hs : files (tidyPath path) = .ok s.toUTF8) (ht : t.toList = unifyLineEnds s.toList) :
    loadGrammar files path = (Notation.read t).mapError (.source t) :=
  loadGrammar_of_readFile (readFile_eq (nul_notMem_tidyPath hn) hs ht)

end Files

/-! ### Commands -/

section Requests

variable [Regex] [Points.Symbols]

variable {files : Files} {r : Request} {input value : String}

/-- A request for the text in a file comes to the same as the request for this text. -/
theorem Request.transcript_reading (reads : r.source? = some (.file input))
    (supplies : readFile files input = .ok value) (depth : Nat) :
    (r.reading (.text value)).transcript files depth = r.transcript files depth := by
  cases r with
  | check path debug => cases reads
  | parse path source complete debug =>
    cases reads
    change Transcript.parse files depth path (.text value) complete debug =
      Transcript.parse files depth path (.file input) complete debug
    have read : readSource files (.file input) = readSource files (.text value) := supplies
    unfold Transcript.parse
    cases loadGrammar files path with
    | error p => rfl
    | ok g =>
      dsimp only
      rw [if_neg TextSource.noConfusion, if_neg TextSource.noConfusion, read]
  | points source debug =>
    cases reads
    simp only [reading, transcript, Transcript.points, readSource, supplies]

theorem Request.run_reading (reads : r.source? = some (.file input))
    (supplies : readFile files input = .ok value) :
    (r.reading (.text value)).run files = r.run files := by
  rw [run_eq_result, run_eq_result, transcript_reading reads supplies]

end Requests

/-- Line ends of files do not matter. A text without carriage returns is loaded from its bytes
however its line feeds are written, and a grammar file that holds them is read as this text. Any
text can be loaded; what is loaded holds no carriage return and stays as it is when its line ends
are unified again. A command with a file for its input behaves exactly as the command with the text
that the file is loaded as, wherever the option stands and however it is written, if that text is
accepted as its value. -/
theorem line_ends_unified :
    (∀ t s : String, '\r' ∉ t.toList → (∃ mark ∈ lineEnds, s.toList = spell mark t.toList) →
      decodeText? s.toUTF8 = some t ∧
      ∀ (files : Files) (path : String), '\x00' ∉ path.toList →
        files (tidyPath path) = .ok s.toUTF8 →
          loadGrammar files path = (Notation.read t).mapError (.source t)) ∧
    (∀ s : String, ∃ loaded, decodeText? s.toUTF8 = some loaded ∧
      '\r' ∉ loaded.toList ∧ unifyLineEnds loaded.toList = loaded.toList ∧
      replaceLineEnds loaded.toList = loaded.toList) ∧
    ∀ (files : Files) (s input value : String) (before after file text : List String)
      (r r' : Request), '\x00' ∉ input.toList → files input = .ok s.toUTF8 →
      decodeText? s.toUTF8 = some value →
      file ∈ spellings "--input" input → text ∈ spellings "--text" value →
      Request.ofArguments (before ++ file ++ after) = .ok r →
      Request.ofArguments (before ++ text ++ after) = .ok r' →
      r.source? = some (.file input) → r'.source? = some (.text value) →
      r'.run files = r.run files ∧
        ∀ depth, r'.transcript files depth = r.transcript files depth := by
  refine ⟨?written, fun s => ?loaded, ?commands⟩
  case written =>
    rintro t s plain ⟨mark, hmark, hs⟩
    have ht : t.toList = unifyLineEnds s.toList := by rw [hs, unifyLineEnds_spell hmark plain]
    exact ⟨decodeText?_eq ht, fun files path hn hfile => loadGrammar_eq hn hfile ht⟩
  case loaded =>
    have decoded := decodeText?_toUTF8 s
    exact ⟨_, decoded, decodeText?_unified decoded⟩
  case commands =>
    intro files s input value before after file text r r' hn hs decoded hfile htext accepted
      accepted' reads reads'
    obtain rfl := ofArguments_reading hfile htext accepted accepted' reads reads'
    have value_eq := (decodeText?_toUTF8 s).symm.trans decoded
    have ht : value.toList = unifyLineEnds s.toList := by
      rw [← Option.some.inj value_eq, String.toList_ofList]
    have supplies := readFile_eq hn hs ht
    exact ⟨Request.run_reading reads supplies, Request.transcript_reading reads supplies⟩

/-- A file with a line end of two characters, read as the input of a command under debug. -/
theorem input_with_carriage_return :
    Request.ofArguments ["points", "--input", "points.txt", "-D"] =
        .ok (.points (.file "points.txt") true) ∧
      Request.ofArguments ["points", "--text", "1,2\n3,4", "-D"] =
        .ok (.points (.text "1,2\n3,4") true) ∧
      (Request.points (.text "1,2\n3,4") true).run (fun _ => .ok "1,2\r\n3,4".toUTF8) =
        (Request.points (.file "points.txt") true).run fun _ => .ok "1,2\r\n3,4".toUTF8 := by
  have accepted : Request.ofArguments ["points", "--input", "points.txt", "-D"] =
      .ok (.points (.file "points.txt") true) := by rfl
  have accepted' : Request.ofArguments ["points", "--text", "1,2\n3,4", "-D"] =
      .ok (.points (.text "1,2\n3,4") true) := by rfl
  have decoded : decodeText? "1,2\r\n3,4".toUTF8 = some "1,2\n3,4" := decodeText?_eq (by decide)
  have name : '\x00' ∉ "points.txt".toList := by decide
  obtain ⟨-, -, commands⟩ := line_ends_unified
  obtain ⟨same, -⟩ := commands (fun _ => .ok "1,2\r\n3,4".toUTF8) "1,2\r\n3,4" "points.txt"
    "1,2\n3,4" ["points"] ["-D"] ["--input", "points.txt"] ["--text", "1,2\n3,4"] _ _ name rfl
    decoded List.mem_cons_self List.mem_cons_self accepted accepted' rfl rfl
  exact ⟨accepted, accepted', same⟩

end OrderedGrammar.Command
