import OrderedGrammar.Proofs.Pattern.Extent
import OrderedGrammar.Proofs.Pattern.FixedText
import OrderedGrammar.Proofs.Regex.Terminals

/-!
The patterns of this library keep the laws of regular expressions: matches lie in the text, and
characters that stand for themselves are what they take. Those of the single characters of point
lists take these characters.
-/

namespace OrderedGrammar

namespace Pattern

/-- A pattern in which characters stand for themselves is the one that `escape` writes. -/
theorem eq_escape_of_spells {pattern text : List Char} (h : Regex.Spells pattern text) :
    pattern = escape text := by
  induction h with
  | nil => rfl
  | plain sign blank rest ih => rw [escape, List.flatMap_cons, escapeChar, sign, blank, ih]; rfl
  | escaped needed rest ih =>
    have protect : (isSign _ || Text.isBlank _) = true := (Bool.or_eq_true _ _).mpr needed
    rw [escape, List.flatMap_cons, escapeChar, if_pos protect, ih]
    rfl

/-- What a pattern takes lies in the text, from the offset on. -/
theorem length_slice_le {p : Pattern} {text : Text} {pos stop : Nat}
    (h : p.matchAt text (min pos text.size) = some stop) :
    (text.slice (min pos text.size) stop).length ≤ text.size - pos := by
  have := (matchAt_bounds h).2
  rw [Text.length_slice]
  omega

/-- The pattern of a text takes it where it occurs, and the empty text anywhere. -/
theorem matched?_itself (text : String) (src : Text) (pos : Nat) (taken : String) :
    Regex.matched? (Pattern.mk (Expr.sequence (text.toList.map itself)) 0 []) src pos =
        some taken ↔
      taken = text ∧ text.toList <+: src.toList.drop pos := by
  have found : Pattern.matchAt ⟨Expr.sequence (text.toList.map itself), 0, []⟩ src
      (min pos src.size) =
      if text.toList <+: src.toList.drop pos then some (min pos src.size + text.length)
      else none := by
    by_cases hne : text.toList = []
    · rw [hne, String.toList_eq_nil_iff.mp hne, if_pos List.nil_prefix]
      rfl
    · rw [matchAt_itself hne, Text.drop_min, String.length_toList]
  change (Pattern.matchAt _ src (min pos src.size)).map (src.slice (min pos src.size)) = _ ↔ _
  rw [found]
  split_ifs with occurs
  · have goes : text.toList <+: src.toList.drop (min pos src.size) := by rwa [Text.drop_min]
    rw [Option.map_some, Text.slice_of_prefix goes, Option.some_inj, eq_comm]
    exact (and_iff_left occurs).symm
  · simp [occurs]

end Pattern

instance : LawfulRegex where
  length_le h := by
    obtain ⟨stop, hs, rfl⟩ := Option.map_eq_some_iff.mp h
    exact Pattern.length_slice_le hs
  spelled {pattern text} spells := by
    refine ⟨_, ?_, Pattern.matched?_itself text⟩
    change (Pattern.read pattern.toList {}).mapError _ = _
    rw [Pattern.eq_escape_of_spells spells, Pattern.read_escape]
    rfl

/-- What a pattern takes is the slice of the text from the offset on. -/
theorem Pattern.takesSlices (t : Terminal) : t.TakesSlices := by
  intro text pos taken h
  obtain ⟨stop, hs, rfl⟩ := Option.map_eq_some_iff.mp h
  have bounds := matchAt_bounds hs
  rcases Nat.le_total pos text.size with hp | hp
  · rw [Nat.min_eq_left hp, Text.length_slice]
    congr 1
    omega
  · rw [Text.slice_of_le (by omega), Text.slice_of_le (by simp)]

namespace Points

/-- The set of a symbol has the characters that the symbol is. -/
theorem Symbol.contains_set {symbol : Symbol} {c : Char} :
    symbol.set.contains c ↔ symbol.Is c := by
  have single (d : Char) : (Pattern.CharSet.single d.toNat).contains c ↔ c = d :=
    Pattern.contains_single
  have either (d e : Char) :
      (Pattern.CharSet.union (.single d.toNat) (.single e.toNat)).contains c ↔ c = d ∨ c = e := by
    simp only [Pattern.CharSet.contains, Bool.or_eq_true, single]
  cases symbol with
  | exponentLetter => exact either 'e' 'E'
  | signCharacter => exact either '+' '-'
  | digitCharacter =>
    simp [set, Is, Pattern.CharSet.contains, Char.le_def, UInt32.le_iff_toNat_le]
  | minusSign => exact single '-'
  | commaSign => exact single ','
  | decimalPoint => exact single '.'
  | space => exact single ' '
  | tab => exact single '\t'
  | carriageReturn => exact single '\r'
  | lineFeed => exact single '\n'

theorem Symbol.plainSet (symbol : Symbol) : Pattern.PlainSet symbol.set := by
  cases symbol with
  | digitCharacter => exact Or.inl rfl
  | _ => exact Or.inr rfl

/-- The pattern of a symbol takes the next character if it is the symbol. -/
theorem matched?_oneOf (symbol : Symbol) (text : Text) (pos : Nat) (taken : String) :
    Regex.matched? (oneOf symbol.set) text pos = some taken ↔
      ∃ c, text[pos]? = some c ∧ symbol.Is c ∧ taken = c.toString := by
  change ((oneOf symbol.set).matchAt text (min pos text.size)).map _ = _ ↔ _
  rw [Pattern.matchAt_oneOf symbol.plainSet, Text.getElem?_min]
  cases hc : text[pos]? with
  | none => simp
  | some c =>
    have inside : pos < text.size := (Array.getElem?_eq_some_iff.mp hc).1
    have one : text.slice pos (pos + 1) = c.toString := by
      have goes : c.toString.toList <+: text.toList.drop pos := by
        simpa using Text.cons_prefix_drop.mpr ⟨hc, List.nil_prefix⟩
      simpa using Text.slice_of_prefix goes
    rw [Nat.min_eq_left (Nat.le_of_lt inside)]
    by_cases hs : symbol.set.contains c
    · simp [hs, one, Symbol.contains_set.mp hs, eq_comm]
    · simp [hs, mt Symbol.contains_set.mpr hs]

instance : LawfulSymbols where
  matched?_iff symbol := matched?_oneOf symbol

end Points

end OrderedGrammar
