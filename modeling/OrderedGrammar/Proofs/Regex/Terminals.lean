import Mathlib
import OrderedGrammar.Matching.Engine
import OrderedGrammar.Proofs.Text.Slices

/-!
Terminals under the laws of regular expressions. What a pattern and its flags make is decided by
what was written (`Terminal.make_eq_ok`). Every fixed text has its terminal (`Terminal.ofText`),
since its pattern writes each character so that it stands for itself; it matches where the text
occurs, and its node holds the text (`Terminal.evaluate_ofText`).
-/

namespace OrderedGrammar

variable [Regex]

namespace Terminal

/-- A pattern and flags make a terminal exactly if they compile, and it is the only one. -/
theorem make_eq_ok {pattern flags : String} {t : Terminal} :
    make pattern flags = .ok t ↔ t.pattern = pattern ∧ t.flags = flags := by
  constructor
  · intro h
    unfold make at h
    split at h
    · cases h
      exact ⟨rfl, rfl⟩
    · cases h
  · rintro ⟨rfl, rfl⟩
    unfold make
    split
    · next compiled h => exact congrArg Except.ok (ext_written rfl rfl)
    · next e h =>
      rw [t.compile_eq] at h
      cases h

/-- The node of a terminal covers as much as the terminal takes. -/
theorem evaluate_eq_some {t : Terminal} {text : Text} {pos : Nat} {tag : String} {n : Tree} :
    t.evaluate text pos tag = some n ↔ ∃ taken, t.matched? text pos = some taken ∧
      n = .text ⟨tag, false, pos, pos + taken.length⟩ taken := by
  rw [evaluate, Option.map_eq_some_iff]
  exact exists_congr fun _ => and_congr_right fun _ => eq_comm

/-- Wherever the terminal matches, it takes the slice of the text that begins there. -/
def TakesSlices (t : Terminal) : Prop :=
  ∀ (text : Text) (pos : Nat) (taken : String), t.matched? text pos = some taken →
    taken = text.slice pos (pos + taken.length)

/-- The terminal matches single characters of one kind. -/
def TakesOne (P : Char → Prop) (t : Terminal) : Prop :=
  ∀ (text : Text) (pos : Nat) (taken : String), t.matched? text pos = some taken ↔
    ∃ c, text[pos]? = some c ∧ P c ∧ taken = c.toString

end Terminal

/-! ### Fixed texts -/

omit [Regex] in
/-- What `escape` writes has each character stand for itself. -/
theorem Pattern.spells_escape (text : List Char) : Regex.Spells (escape text) text := by
  induction text with
  | nil => exact .nil
  | cons c cs ih =>
    rw [escape, List.flatMap_cons, escapeChar]
    split_ifs with needed
    · exact .escaped ((Bool.or_eq_true _ _).mp needed) ih
    · rw [Bool.or_eq_true, not_or, Bool.not_eq_true, Bool.not_eq_true] at needed
      exact .plain needed.1 needed.2 ih

namespace Terminal

variable [LawfulRegex]

theorem length_matched?_le {t : Terminal} {text : Text} {pos : Nat} {taken : String}
    (h : t.matched? text pos = some taken) : taken.length ≤ text.size - pos :=
  LawfulRegex.length_le h

/-- The pattern of a text compiles, and takes the text where it occurs. -/
theorem exists_literal (text : String) : ∃ t, literal text = .ok t ∧ ∀ src pos taken,
    t.matched? src pos = some taken ↔ taken = text ∧ text.toList <+: src.toList.drop pos := by
  have spells : Regex.Spells (literalPattern text).toList text.toList := by
    rw [literalPattern, String.toList_ofList]
    exact Pattern.spells_escape _
  obtain ⟨compiled, made, takes⟩ := LawfulRegex.spelled spells
  have compile_eq : compile (literalPattern text) "" = .ok compiled := by
    rw [compile_noFlags, made]
    rfl
  exact ⟨⟨_, _, compiled, compile_eq⟩, make_eq_ok.mpr ⟨rfl, rfl⟩, takes⟩

theorem literal_ne_error (text : String) (e : TerminalError) : literal text ≠ .error e := by
  obtain ⟨t, made, -⟩ := exists_literal text
  simp [made]

/-- The terminal of a fixed text; there always is one. -/
def ofText (text : String) : Terminal :=
  match made : literal text with
  | .ok t => t
  | .error e => absurd made (literal_ne_error text e)

/-- Every text has its terminal. -/
theorem literal_eq (text : String) : literal text = .ok (ofText text) := by
  unfold ofText
  split
  · assumption
  · next e failed => exact absurd failed (literal_ne_error text e)

theorem flags_ofText (text : String) : (ofText text).flags = "" :=
  (make_eq_ok.mp (literal_eq text)).2

/-- The terminal of a text matches where the text occurs, and takes it. -/
theorem matched?_ofText (s : String) (text : Text) (pos : Nat) :
    (ofText s).matched? text pos = if s.toList <+: text.toList.drop pos then some s else none := by
  obtain ⟨t, made, takes⟩ := exists_literal s
  obtain rfl : ofText s = t := Except.ok.inj ((literal_eq s).symm.trans made)
  split_ifs with occurs
  · exact (takes _ _ _).mpr ⟨rfl, occurs⟩
  · exact Option.eq_none_iff_forall_ne_some.mpr fun taken h => occurs ((takes _ _ _).mp h).2

/-- The node of the match covers the text and holds it. -/
theorem evaluate_ofText (s : String) (text : Text) (pos : Nat) (tag : String) :
    (ofText s).evaluate text pos tag =
      if s.toList <+: text.toList.drop pos then
        some (.text ⟨tag, false, pos, pos + s.length⟩ s)
      else none := by
  rw [evaluate, matched?_ofText, apply_ite (Option.map _)]
  rfl

end Terminal

end OrderedGrammar
