import OrderedGrammar.Proofs.Notation.Reading
import OrderedGrammar.Proofs.Pattern.Lawful
import OrderedGrammar.Matching.Engine

/-!
Quoted literals mean their characters. To quote a text, a backslash goes before every backslash and
every quote of the kind that is used; line feeds, carriage returns and tabs may be written by their
letters. However it is quoted, a text is read as the terminal of that text, and the terminal takes
exactly the text (`quoted_means_itself`).
-/

namespace OrderedGrammar.Notation

open Lexer

/-! ### Quoting -/

/-- The text is written like this between quotes `q`. -/
inductive Quoted (q : Char) : List Char → List Char → Prop
  | nil : Quoted q [] []
  | plain {c s e} (hc : c ≠ '\\' ∧ c ≠ q) (h : Quoted q s e) : Quoted q (c :: s) (c :: e)
  | guarded {c s e} (hc : c = '\\' ∨ c = q) (h : Quoted q s e) :
    Quoted q (c :: s) ('\\' :: c :: e)
  | lineFeed {s e} (h : Quoted q s e) : Quoted q ('\n' :: s) ('\\' :: 'n' :: e)
  | carriageReturn {s e} (h : Quoted q s e) : Quoted q ('\r' :: s) ('\\' :: 'r' :: e)
  | tab {s e} (h : Quoted q s e) : Quoted q ('\t' :: s) ('\\' :: 't' :: e)

/-- The lexer takes the backslashes out again. -/
theorem Quoted.spelled {q : Char} {s e : List Char} (hq : q = '\'' ∨ q = '"')
    (h : Quoted q s e) : Spelled q e s := by
  induction h with
  | nil => exact .nil
  | plain hc _ ih => exact .plain hc ih
  | @guarded c s e hc _ ih =>
    have same : unescape c = c := by
      rcases hc with rfl | rfl
      · rfl
      · rcases hq with rfl | rfl <;> rfl
    have spelled : Spelled q ('\\' :: c :: e) (unescape c :: s) := .escaped ih
    rwa [same] at spelled
  | lineFeed _ ih => exact .escaped ih
  | carriageReturn _ ih => exact .escaped ih
  | tab _ ih => exact .escaped ih

/-! ### Reading -/

/-- A text begins with one token only. -/
theorem Begins.unique {s r r' : List Char} {l l' : Lexeme} (h : Begins s l r)
    (h' : Begins s l' r') : l = l' ∧ r = r' := by
  have hr := h.length_lt
  have hr' := h'.length_lt
  have first := scan_begins h (n := 0) (m := s.length - r.length) (by omega)
  have second := scan_begins h' (n := 0) (m := s.length - r'.length) (by omega)
  have tokens := List.head_eq_of_cons_eq (first.symm.trans second)
  simp only [Token.mk.injEq, true_and] at tokens
  obtain ⟨stop, same⟩ := tokens
  refine ⟨same, ?_⟩
  exact (List.suffix_of_suffix_length_le h.suffix h'.suffix (by omega)).eq_of_length (by omega)

section Literals

variable [Regex] [LawfulRegex]

/-- Where a literal stands, there is no other primary. -/
theorem primary_quoted {q : Char} {s e r r' : List Char} {v : Validator}
    (hq : q = '\'' ∨ q = '"') (h : Begins (q :: (e ++ q :: r)) (.literal s) r) :
    Primary (q :: (e ++ q :: r)) v r' ↔
      v = .terminal (.ofText (String.ofList s)) ∧ r' = r := by
  constructor
  · intro primary
    generalize hs : q :: (e ++ q :: r) = whole at h primary
    cases primary with
    | ref other => cases (h.unique other).1
    | regex other _ => cases (h.unique other).1
    | literal other made =>
      obtain ⟨same, rest⟩ := h.unique other
      cases same
      rw [Terminal.literal_eq] at made
      cases made
      exact ⟨rfl, rest.symm⟩
    | group _ _ _ =>
      obtain rfl : q = '(' := List.head_eq_of_cons_eq hs
      rcases hq with h | h <;> cases h
  · rintro ⟨rfl, rfl⟩
    exact .literal h (Terminal.literal_eq _)

/-- A quoted text is read as the terminal of the text. No other primary can stand in its place,
nothing is read of what follows, and the terminal has no flags; it always compiles. It matches where
the text occurs and nowhere else, and the node of the match holds the text. -/
theorem quoted_means_itself {q : Char} {s : String} {e : List Char} (hq : q = '\'' ∨ q = '"')
    (hne : s ≠ "") (quoted : Quoted q s.toList e) :
    (∀ r v r', Primary (q :: (e ++ q :: r)) v r' ↔ v = .terminal (.ofText s) ∧ r' = r) ∧
    (∀ L r d R, (q :: (e ++ q :: r)).length ≤ L →
      resume L (q :: (e ++ q :: r)) (Draft.inside d R) =
        resume L r (d.inside (R.after [.terminal (.ofText s)] (some (L - r.length))))) ∧
    Terminal.literal s = .ok (.ofText s) ∧ (Terminal.ofText s).flags = "" ∧
    ∀ g text depth pos tag,
      Matching.evaluate g text (depth + 1) (.terminal (.ofText s)) pos tag =
        .ok (if s.toList <+: text.toList.drop pos then
          some (.text ⟨tag, false, pos, pos + s.length⟩ s) else none) := by
  have token (r : List Char) : Begins (q :: (e ++ q :: r)) (.literal s.toList) r :=
    .literal hq (quoted.spelled hq) (by simpa using hne)
  have primary (r r' : List Char) (v : Validator) :
      Primary (q :: (e ++ q :: r)) v r' ↔ v = .terminal (.ofText s) ∧ r' = r := by
    rw [primary_quoted hq (token r), String.ofList_toList]
  refine ⟨fun r v r' => primary r r' v, ?_, Terminal.literal_eq s, Terminal.flags_ofText s, ?_⟩
  · intro L r d R hL
    exact ((primary r r _).mpr ⟨rfl, rfl⟩).resume_eq hL
  · intro g text depth pos tag
    rw [Matching.evaluate, Terminal.evaluate_ofText]

end Literals

/-- Quotes, backslashes and characters that mean something in patterns. -/
theorem quoted_signs_mean_themselves :
    ('"' = '\'' ∨ '"' = '"') ∧ "a\"\\\t.[" ≠ "" ∧
      Quoted '"' "a\"\\\t.[".toList ['a', '\\', '"', '\\', '\\', '\\', 't', '.', '['] ∧
      Primary ['"', 'a', '\\', '"', '\\', '\\', '\\', 't', '.', '[', '"', '?']
        (.terminal (.ofText "a\"\\\t.[")) ['?'] ∧
      Matching.evaluate ⟨"a", []⟩ #['.', 'a', '"', '\\', '\t', '.', '['] 1
        (.terminal (.ofText "a\"\\\t.[")) 1 "a" =
          .ok (some (.text ⟨"a", false, 1, 7⟩ "a\"\\\t.[")) := by
  have quoted : Quoted '"' "a\"\\\t.[".toList
      ['a', '\\', '"', '\\', '\\', '\\', 't', '.', '['] := by
    simp only [String.reduceToList]
    exact .plain (by decide) (.guarded (by decide) (.guarded (by decide) (.tab
      (.plain (by decide) (.plain (by decide) .nil)))))
  obtain ⟨primary, -, -, -, matched⟩ := quoted_means_itself (by decide) (by decide) quoted
  refine ⟨by decide, by decide, quoted, (primary ['?'] _ _).mpr ⟨rfl, rfl⟩, ?_⟩
  have length : "a\"\\\t.[".length = 6 := by decide
  rw [matched]
  simp [length]

end OrderedGrammar.Notation
