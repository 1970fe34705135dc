import OrderedGrammar.Command.Run
import OrderedGrammar.Proofs.Command.Paths
import OrderedGrammar.Proofs.Notation.WellFormed
import OrderedGrammar.Proofs.Points.Accepts
import OrderedGrammar.Proofs.Source.LineEnds

/-!
What commands work on. A grammar in a file is refused or loaded, and a text to match is unreadable
or supplied, never both. The source of a grammar is the text of its file, and a grammar that has
been loaded can be described.
-/

namespace OrderedGrammar.Command

theorem mapError_eq_ok {ε ε' α : Type} {x : Except ε α} {f : ε → ε'} {a : α} :
    x.mapError f = .ok a ↔ x = .ok a := by
  cases x with
  | error e => simp [Except.mapError]
  | ok a => simp [Except.mapError]

/-! ### Files -/

section Files

variable {files : Files} {path src src' : String} {source : TextSource}

/-- The file at the path cannot be opened. -/
def Closed (files : Files) (path : String) : Prop := ∃ e, files path = .error e

/-- The file at the path holds the text. -/
def Holds (files : Files) (path src : String) : Prop :=
  ∃ bytes, files path = .ok bytes ∧ Source.decodeText? bytes = some src

/-- The input file cannot be opened. -/
def Unreadable (files : Files) : TextSource → Prop
  | .file path => Closed files path
  | _ => False

/-- The text to match is given, or the input file holds it. -/
def Supplies (files : Files) : TextSource → String → Prop
  | .text s, src => src = s
  | .file path, src => Holds files path src
  | _, _ => False

theorem Holds.unique (h : Holds files path src) (h' : Holds files path src') : src = src' := by
  obtain ⟨bytes, hb, hs⟩ := h
  obtain ⟨bytes', hb', hs'⟩ := h'
  cases hb.symm.trans hb'
  exact Option.some.inj (hs.symm.trans hs')

theorem Holds.not_closed (h : Holds files path src) : ¬ Closed files path := by
  obtain ⟨bytes, hb, -⟩ := h
  rintro ⟨e, he⟩
  cases hb.symm.trans he

theorem Supplies.unique (h : Supplies files source src) (h' : Supplies files source src') :
    src = src' := by
  cases source with
  | text s => exact h.trans h'.symm
  | file path => exact Holds.unique h h'
  | _ => cases h

theorem Supplies.readable (h : Supplies files source src) : ¬ Unreadable files source := by
  cases source with
  | text s => exact id
  | file path => exact Holds.not_closed h
  | _ => cases h

theorem holds_of_readFile (h : readFile files path = .ok src) : Holds files path src := by
  unfold readFile at h
  split at h
  · cases h
  · split at h
    · cases h
    · split at h
      · cases h
        exact ⟨_, ‹_›, ‹_›⟩
      · cases h

/-- Line ends of a file that has been read are unified, so replacing them changes nothing. -/
theorem loadSource_eq (h : readFile files (tidyPath path) = .ok src) :
    loadSource files path = .ok src := by
  obtain ⟨bytes, -, decoded⟩ := holds_of_readFile h
  obtain ⟨-, -, same⟩ := Source.decodeText?_unified decoded
  rw [loadSource, h]
  exact congrArg Except.ok ((congrArg String.ofList same).trans String.ofList_toList)

end Files

/-! ### Grammars -/

section Grammars

variable [Regex] {files : Files} {path src : String} {g g' : Grammar}

/-- The grammar file cannot be opened, or is rejected. -/
def Refused (files : Files) (path : String) : Prop :=
  Closed files (tidyPath path) ∨
    ∃ src e, Holds files (tidyPath path) src ∧ Notation.read src = .error e

/-- The grammar file holds the grammar. -/
def Loads (files : Files) (path : String) (g : Grammar) : Prop :=
  ∃ src, Holds files (tidyPath path) src ∧ Notation.read src = .ok g

theorem Loads.unique (h : Loads files path g) (h' : Loads files path g') : g = g' := by
  obtain ⟨src, hs, hr⟩ := h
  obtain ⟨src', hs', hr'⟩ := h'
  obtain rfl := hs.unique hs'
  exact Except.ok.inj (hr.symm.trans hr')

theorem Loads.not_refused (h : Loads files path g) : ¬ Refused files path := by
  obtain ⟨src, hs, hr⟩ := h
  rintro (closed | ⟨src', e, hs', he⟩)
  · exact hs.not_closed closed
  · obtain rfl := hs.unique hs'
    cases hr.symm.trans he

/-- A grammar is loaded only by reading it. -/
theorem read_of_loadGrammar (h : loadGrammar files path = .ok g) :
    ∃ src, Notation.read src = .ok g := by
  obtain ⟨src, -, hr⟩ := bind_eq_ok.mp h
  exact ⟨src, mapError_eq_ok.mp hr⟩

/-- A grammar is read from the text of its file. -/
theorem loadGrammar_of_readFile (h : readFile files (tidyPath path) = .ok src) :
    loadGrammar files path = (Notation.read src).mapError (.source src) := by
  rw [loadGrammar, loadSource_eq h]
  rfl

/-- A file that cannot be read is no source of a grammar. -/
theorem loadGrammar_of_error {p : Problem} (h : readFile files (tidyPath path) = .error p) :
    loadGrammar files path = .error p := by
  rw [loadGrammar, loadSource, h]
  rfl

/-- The rules of a grammar that has been read can be listed. -/
theorem ruleLines_ok (h : Notation.read src = .ok g) :
    ∃ lines, ruleLines g = .ok lines := by
  obtain ⟨rules, hrules⟩ := Grammar.describe_ok h
  rw [ruleLines, hrules]
  exact ⟨_, rfl⟩

end Grammars

end OrderedGrammar.Command
