import OrderedGrammar.Points.Grammar
import OrderedGrammar.Proofs.Grammar.Language
import OrderedGrammar.Proofs.Language.Longest

/-!
The words of the rules of point lists, as languages over six kinds of characters, and with which
characters these words begin and go on. Numbers never go on with a sign or a separator, so that a
number, a separator and a number with a minus sign each end where the next of them begins; a list of
pairs never ends in a blank.
-/

namespace OrderedGrammar.Points

open Words
open scoped Computability

/-! ### Kinds of characters -/

def IsDigit (c : Char) : Prop := 0x30 ≤ c.toNat ∧ c.toNat ≤ 0x39
def IsSign (c : Char) : Prop := c.toNat = 0x2B ∨ c.toNat = 0x2D
def IsMinus (c : Char) : Prop := c.toNat = 0x2D
def IsPoint (c : Char) : Prop := c.toNat = 0x2E
def IsLetter (c : Char) : Prop := c.toNat = 0x65 ∨ c.toNat = 0x45
def IsComma (c : Char) : Prop := c.toNat = 0x2C
def IsBlank (c : Char) : Prop :=
  c.toNat = 0x20 ∨ c.toNat = 0x09 ∨ c.toNat = 0x0D ∨ c.toNat = 0x0A

/-- The kind of each symbol. -/
def Symbol.Kind : Symbol → Char → Prop
  | minusSign => IsMinus
  | commaSign => IsComma
  | decimalPoint => IsPoint
  | exponentLetter => IsLetter
  | signCharacter => IsSign
  | digitCharacter => IsDigit
  | space => (·.toNat = 0x20)
  | tab => (·.toNat = 0x09)
  | carriageReturn => (·.toNat = 0x0D)
  | lineFeed => (·.toNat = 0x0A)

/-- Characters of digit runs with a point. -/
def InMantissa (c : Char) : Prop := IsDigit c ∨ IsPoint c

/-- Characters of numbers. -/
def InNumber (c : Char) : Prop := InMantissa c ∨ IsSign c ∨ IsLetter c

/-- Characters between numbers. -/
def InSeparator (c : Char) : Prop := IsBlank c ∨ IsComma c

attribute [simp] IsDigit IsSign IsMinus IsPoint IsLetter IsComma IsBlank InMantissa InNumber
  InSeparator

/-- A symbol is the characters of its kind. -/
theorem Symbol.is_iff_kind (symbol : Symbol) (c : Char) : symbol.Is c ↔ symbol.Kind c := by
  cases symbol with
  | exponentLetter => exact or_congr Char.toNat_inj.symm Char.toNat_inj.symm
  | signCharacter => exact or_congr Char.toNat_inj.symm Char.toNat_inj.symm
  | digitCharacter => exact Iff.rfl
  | _ => exact Char.toNat_inj.symm

/-- Numbers and separators have no character in common. -/
theorem not_inSeparator {c : Char} (h : InNumber c) : ¬ InSeparator c := by
  simp at h ⊢
  omega

/-! ### The language of each rule -/

variable [Regex] [Symbols]

/-- The words of a rule. -/
def words (rule : String) : Language Char := grammar.language (.ref rule)

theorem words_only {rule : String} {v : Validator} (h : grammar.rule? rule = some [v]) :
    words rule = grammar.language v := by
  rw [words, Grammar.language_ref h, List.map_singleton, List.sum_singleton]

theorem words_either {rule : String} {v w : Validator} (h : grammar.rule? rule = some [v, w]) :
    words rule = grammar.language v + grammar.language w := by
  rw [words, Grammar.language_ref h, List.map_cons, List.map_singleton, List.sum_cons,
    List.sum_singleton]

theorem language_maybe (rule : String) : grammar.language (maybe rule) = 1 + words rule :=
  Grammar.language_opt

theorem language_anyOf (rule : String) : grammar.language (anyOf rule) = (words rule)∗ :=
  Grammar.language_many

theorem language_someOf (rule : String) :
    grammar.language (someOf rule) = words rule * (words rule)∗ :=
  Grammar.language_some

section Equations

attribute [local simp] anyOf someOf maybe Grammar.language_cons Grammar.language_nil
  Grammar.language_opt Grammar.language_many Grammar.language_some

theorem words_floating_point_constant : words "floating_point_constant" =
    words "fractional_constant" * (1 + words "exponent") +
      words "digit_sequence" * words "exponent" := by
  rw [words_either rfl]; simp [words, -add_eq_sup]

theorem words_integer_constant : words "integer_constant" = words "digit_sequence" := by
  rw [words_only rfl]; simp [words, -add_eq_sup]

theorem words_number : words "number" =
    (1 + words "sign") * words "floating_point_constant" +
      (1 + words "sign") * words "integer_constant" := by
  rw [words_either rfl]; simp [words, -add_eq_sup]

theorem words_coordinate : words "coordinate" = words "number" := by
  rw [words_only rfl]; simp [words, -add_eq_sup]

theorem words_comma_wsp : words "comma_wsp" =
    words "wsp" * (words "wsp")∗ * ((1 + words "comma") * (words "wsp")∗) +
      words "comma" * (words "wsp")∗ := by
  rw [words_either rfl]; simp [words, -add_eq_sup]

theorem words_coordinate_pair : words "coordinate_pair" =
    words "coordinate" * (words "comma_wsp" * words "coordinate") +
      words "coordinate" * words "negative_coordinate" := by
  rw [words_either rfl]; simp [words, -add_eq_sup]

theorem words_coordinate_pairs : words "coordinate_pairs" =
    words "coordinate_pair" * (words "comma_wsp" * words "coordinate_pair")∗ := by
  rw [words_only rfl]; simp [words, -add_eq_sup]

theorem words_list_of_points : words "list_of_points" =
    (words "wsp")∗ * ((1 + words "coordinate_pairs") * (words "wsp")∗) := by
  rw [words_only rfl]; simp [words, -add_eq_sup]

/-! ### The words of single characters -/

variable [LawfulSymbols]

/-- The terminal of a symbol takes the characters that the symbol is. -/
theorem takesOne_terminal (symbol : Symbol) : symbol.terminal.TakesOne symbol.Is :=
  LawfulSymbols.matched?_iff symbol

/-- The words of a symbol are the characters that it is. -/
theorem mem_language_one (symbol : Symbol) (w : List Char) :
    w ∈ grammar.language (one symbol) ↔ ∃ c, symbol.Is c ∧ w = [c] := by
  rw [one, Grammar.mem_language_takesOne (takesOne_terminal symbol)]

/-- The words of a symbol as a language over a kind of characters. -/
theorem language_one (symbol : Symbol) : grammar.language (one symbol) = single symbol.Kind := by
  ext w
  rw [mem_language_one]
  exact exists_congr fun c => and_congr_left fun _ => symbol.is_iff_kind c

attribute [local simp] language_one Symbol.Kind

theorem words_wsp : words "wsp" = single IsBlank := by
  rw [words, Grammar.language_ref rfl]
  simp only [List.map_cons, List.map_nil, language_one, Symbol.Kind, List.sum_cons, List.sum_nil,
    add_zero]
  ext w
  simp only [Language.mem_add]
  constructor
  · rintro (⟨c, h, rfl⟩ | ⟨c, h, rfl⟩ | ⟨c, h, rfl⟩ | ⟨c, h, rfl⟩) <;> exact ⟨c, by simp [h], rfl⟩
  · rintro ⟨c, h | h | h | h, rfl⟩
    · exact Or.inl ⟨c, h, rfl⟩
    · exact Or.inr (Or.inl ⟨c, h, rfl⟩)
    · exact Or.inr (Or.inr (Or.inl ⟨c, h, rfl⟩))
    · exact Or.inr (Or.inr (Or.inr ⟨c, h, rfl⟩))

theorem words_digit : words "digit" = single IsDigit := by
  rw [words_only rfl]; simp

theorem words_digit_sequence :
    words "digit_sequence" = single IsDigit * (single IsDigit)∗ := by
  rw [words_only rfl, ← words_digit]; simp [words]

theorem words_sign : words "sign" = single IsSign := by
  rw [words_only rfl]; simp

theorem words_comma : words "comma" = single IsComma := by
  rw [words_only rfl]; simp

theorem words_exponent : words "exponent" =
    single IsLetter * ((1 + words "sign") * words "digit_sequence") := by
  rw [words_only rfl]; simp [words, -add_eq_sup]

theorem words_fractional_constant : words "fractional_constant" =
    (1 + words "digit_sequence") * (single IsPoint * words "digit_sequence") +
      words "digit_sequence" * single IsPoint := by
  rw [words_either rfl]; simp [words, -add_eq_sup]

theorem words_negative_coordinate : words "negative_coordinate" =
    single IsMinus * words "floating_point_constant" +
      single IsMinus * words "integer_constant" := by
  rw [words_either rfl]; simp [words, -add_eq_sup]

end Equations

variable [LawfulSymbols]

/-! ### Digits, fractions and exponents -/

variable {c : Char}

theorem over_digit_sequence : Over (words "digit_sequence") IsDigit := by
  rw [words_digit_sequence]
  exact single_over.mul single_over.kstar

theorem marked_digit_sequence : Marked (words "digit_sequence") IsDigit := by
  rw [words_digit_sequence]
  exact single_marked.mul_left

theorem nil_notMem_digit_sequence : [] ∉ words "digit_sequence" :=
  marked_digit_sequence.nil_notMem

/-- Any digits may be added to digits. -/
theorem digit_sequence_apart {A : Language Char} (h : ∀ c, Opens A c → ¬ IsDigit c) :
    Apart (words "digit_sequence") A :=
  fun c hg ho => h c ho (over_digit_sequence.goesOn hg)

theorem over_sign : Over (words "sign") IsSign := by
  rw [words_sign]
  exact single_over

theorem opens_exponent (h : Opens (words "exponent") c) : IsLetter c := by
  rw [words_exponent] at h
  exact single_over.opens (h.left single_marked.nil_notMem)

/-- A sign is followed by a number, which begins otherwise. -/
theorem sign_apart {A : Language Char} (h : ∀ c, Opens A c → ¬ IsSign c) :
    Apart (1 + words "sign") A := by
  intro c hg ho
  refine h c ho ?_
  rcases hg.of_one_add with hg | hg
  · exact over_sign.opens hg
  · exact over_sign.goesOn hg

theorem sign_apart_digit_sequence : Apart (1 + words "sign") (words "digit_sequence") :=
  sign_apart fun c ho => by
    have := over_digit_sequence.opens ho
    simp at this ⊢
    omega

theorem goesOn_exponent (h : GoesOn (words "exponent") c) : IsDigit c := by
  rw [words_exponent] at h
  have digits := h.right single_apart fun h => nil_notMem_digit_sequence (nil_mem_mul.mp h).2
  exact over_digit_sequence.goesOn
    (digits.right sign_apart_digit_sequence nil_notMem_digit_sequence)

theorem over_fractional_constant : Over (words "fractional_constant") InMantissa := by
  have digits : Over (words "digit_sequence") InMantissa :=
    over_digit_sequence.imp fun _ => Or.inl
  have point : Over (single IsPoint) InMantissa := single_over.imp fun _ => Or.inr
  rw [words_fractional_constant]
  exact ((Over.one.add digits).mul (point.mul digits)).add (digits.mul point)

theorem marked_fractional_constant : Marked (words "fractional_constant") IsPoint := by
  rw [words_fractional_constant]
  exact single_marked.mul_left.mul_right.add single_marked.mul_right

theorem opens_floating_point_constant (h : Opens (words "floating_point_constant") c) :
    InMantissa c := by
  rw [words_floating_point_constant] at h
  rcases h.of_add with h | h
  · exact over_fractional_constant.opens (h.left marked_fractional_constant.nil_notMem)
  · exact Or.inl (over_digit_sequence.opens (h.left nil_notMem_digit_sequence))

theorem marked_exponent : Marked (words "exponent") IsLetter := by
  rw [words_exponent]
  exact single_marked.mul_left

/-- A floating point constant has a point or an exponent. -/
theorem marked_floating_point_constant :
    Marked (words "floating_point_constant") fun c => IsPoint c ∨ IsLetter c := by
  rw [words_floating_point_constant]
  exact (marked_fractional_constant.imp fun _ => Or.inl).mul_left.add
    (marked_exponent.imp fun _ => Or.inr).mul_right

/-! ### Numbers -/

/-- Digits and a point in any order, at least one of them. -/
def mantissas : Language Char := single InMantissa * (single InMantissa)∗

omit [Regex] [Symbols] [LawfulSymbols] in
theorem le_mantissas {A : Language Char} (hne : [] ∉ A) (h : Over A InMantissa) : A ≤ mantissas :=
  fun w hw => mem_single_mul_kstar.mpr ⟨fun hn => hne (hn ▸ hw), h w hw⟩

theorem digit_sequence_le_mantissas : words "digit_sequence" ≤ mantissas :=
  le_mantissas nil_notMem_digit_sequence (over_digit_sequence.imp fun _ => Or.inl)

/-- A number without its sign is made of digits and a point, with an exponent or not. -/
theorem floating_point_constant_le :
    words "floating_point_constant" ≤ mantissas * (1 + words "exponent") := by
  rw [words_floating_point_constant]
  refine add_le (mul_le_mul_left ?_ _) (mul_le_mul' digit_sequence_le_mantissas ?_)
  · exact le_mantissas marked_fractional_constant.nil_notMem over_fractional_constant
  · exact le_add_self

theorem integer_constant_le :
    words "integer_constant" ≤ mantissas * (1 + words "exponent") := by
  rw [words_integer_constant, ← mul_one (words "digit_sequence")]
  exact mul_le_mul' digit_sequence_le_mantissas le_self_add

theorem number_le :
    words "number" ≤ (1 + words "sign") * (mantissas * (1 + words "exponent")) := by
  rw [words_number]
  exact add_le (mul_le_mul_right floating_point_constant_le _)
    (mul_le_mul_right integer_constant_le _)

/-- After a number, a longer number can only go on with a digit, a point or an exponent. -/
theorem goesOn_number (h : GoesOn (words "number") c) : InMantissa c ∨ IsLetter c := by
  have within : Over mantissas InMantissa := single_over.mul single_over.kstar
  have nonempty : [] ∉ mantissas := (single_marked (P := InMantissa)).mul_left.nil_notMem
  have first : Apart (1 + words "sign") (mantissas * (1 + words "exponent")) :=
    sign_apart fun c ho => by
      have := within.opens (ho.left nonempty)
      simp at this ⊢
      omega
  have opens {d} (ho : Opens (1 + words "exponent") d) : IsLetter d :=
    ho.of_add.elim (fun h => absurd h not_opens_one) opens_exponent
  have second : Apart mantissas (1 + words "exponent") := by
    intro d hg ho
    have h1 := within.goesOn hg
    have h2 := opens ho
    simp at h1 h2
    omega
  have unsigned := (h.mono number_le).right first fun h => nonempty (nil_mem_mul.mp h).1
  rcases unsigned.of_mul second with h | ⟨-, h⟩
  · rcases h.of_one_add with h | h
    · exact Or.inr (opens_exponent h)
    · exact Or.inl (Or.inl (goesOn_exponent h))
  · exact Or.inl (within.goesOn h)

/-- There is no point in an exponent. -/
theorem over_exponent :
    Over (words "exponent") fun c => IsDigit c ∨ IsSign c ∨ IsLetter c := by
  rw [words_exponent]
  refine (single_over.imp fun _ h => Or.inr (Or.inr h)).mul ((Over.one.add ?_).mul ?_)
  · exact over_sign.imp fun _ h => Or.inr (Or.inl h)
  · exact over_digit_sequence.imp fun _ => Or.inl

theorem over_number : Over (words "number") InNumber := by
  have mantissa : Over mantissas InNumber :=
    (single_over.mul single_over.kstar).imp fun _ h => Or.inl h
  intro w hw
  exact ((Over.one.add (over_sign.imp fun _ h => Or.inr (Or.inl h))).mul
    (mantissa.mul (Over.one.add (over_exponent.imp fun _ => Or.imp_left Or.inl)))) w
    (number_le hw)

theorem nil_notMem_floating_point_constant : [] ∉ words "floating_point_constant" :=
  marked_floating_point_constant.nil_notMem

theorem over_integer_constant : Over (words "integer_constant") IsDigit := by
  rw [words_integer_constant]
  exact over_digit_sequence

theorem nil_notMem_integer_constant : [] ∉ words "integer_constant" := by
  rw [words_integer_constant]
  exact nil_notMem_digit_sequence

theorem nil_notMem_number : [] ∉ words "number" := by
  simp [words_number, nil_notMem_floating_point_constant, nil_notMem_integer_constant,
    -add_eq_sup]

theorem opens_negative_coordinate (h : Opens (words "negative_coordinate") c) : IsMinus c := by
  rw [words_negative_coordinate, ← mul_add] at h
  exact single_over.opens (h.left single_marked.nil_notMem)

/-- A number with a minus sign is a number. -/
theorem negative_coordinate_le : words "negative_coordinate" ≤ words "number" := by
  have minus : single IsMinus ≤ 1 + words "sign" := by
    rw [words_sign]
    exact (single_mono fun _ => Or.inr).trans le_add_self
  rw [words_negative_coordinate, words_number]
  exact add_le_add (mul_le_mul_left minus _) (mul_le_mul_left minus _)

theorem nil_notMem_negative_coordinate : [] ∉ words "negative_coordinate" :=
  fun h => nil_notMem_number (negative_coordinate_le h)

/-- After a number, a minus sign begins another one. -/
theorem number_apart_negative_coordinate :
    Apart (words "number") (words "negative_coordinate") := by
  intro c hg ho
  have h1 := goesOn_number hg
  have h2 := opens_negative_coordinate ho
  simp at h1 h2
  omega

/-! ### Separators -/

theorem over_wsp : Over (words "wsp") IsBlank := by
  rw [words_wsp]
  exact single_over

theorem over_comma : Over (words "comma") IsComma := by
  rw [words_comma]
  exact single_over

theorem over_comma_wsp : Over (words "comma_wsp") InSeparator := by
  have blank : Over (words "wsp") InSeparator := over_wsp.imp fun _ => Or.inl
  have comma : Over (words "comma") InSeparator := over_comma.imp fun _ => Or.inr
  rw [words_comma_wsp]
  exact ((blank.mul blank.kstar).mul ((Over.one.add comma).mul blank.kstar)).add
    (comma.mul blank.kstar)

theorem nil_notMem_wsp : [] ∉ words "wsp" := by
  rw [words_wsp]
  exact single_marked.nil_notMem

theorem wsp_apart {A : Language Char} : Apart (words "wsp") A := by
  rw [words_wsp]
  exact single_apart

theorem nil_notMem_comma : [] ∉ words "comma" := by
  rw [words_comma]
  exact single_marked.nil_notMem

theorem nil_notMem_comma_wsp : [] ∉ words "comma_wsp" := by
  simp [words_comma_wsp, nil_notMem_wsp, nil_notMem_comma, -add_eq_sup]

theorem number_apart_comma_wsp {A : Language Char} :
    Apart (words "number") (words "comma_wsp" * A) := by
  intro c hg ho
  have separator := over_comma_wsp.opens (ho.left nil_notMem_comma_wsp)
  exact not_inSeparator (over_number.goesOn hg) separator

theorem comma_wsp_apart {A : Language Char} (h : ∀ c, Opens A c → InNumber c) :
    Apart (words "comma_wsp") A :=
  fun c hg ho => not_inSeparator (h c ho) (over_comma_wsp.goesOn hg)

theorem comma_wsp_apart_number : Apart (words "comma_wsp") (words "number") :=
  comma_wsp_apart fun _ => over_number.opens

/-! ### Pairs -/

/-- What follows the first number of a pair. -/
def seconds : Language Char :=
  words "comma_wsp" * words "number" + words "negative_coordinate"

omit [LawfulSymbols] in
theorem words_coordinate_pair_eq : words "coordinate_pair" = words "number" * seconds := by
  rw [words_coordinate_pair, words_coordinate, ← mul_add]
  rfl

theorem nil_notMem_seconds : [] ∉ seconds := by
  simp [seconds, nil_notMem_comma_wsp, nil_notMem_negative_coordinate, -add_eq_sup]

theorem number_apart_seconds : Apart (words "number") seconds :=
  fun c hg ho => ho.of_add.elim (number_apart_comma_wsp c hg)
    (number_apart_negative_coordinate c hg)

/-- A number begins where blanks and commas end. -/
theorem separators_apart_number : Apart (single InSeparator)∗ (words "number") := fun _ hg ho =>
  not_inSeparator (over_number.opens ho) (single_over.kstar.goesOn hg)

theorem goesOn_seconds (h : GoesOn seconds c) : InNumber c := by
  have le : seconds ≤ (single InSeparator)∗ * words "number" := by
    refine add_le (mul_le_mul_left (fun w hw => ?_) _) ?_
    · exact mem_kstar_single.mpr (over_comma_wsp w hw)
    · rw [← one_mul (words "negative_coordinate")]
      exact mul_le_mul' one_le_kstar negative_coordinate_le
  exact over_number.goesOn ((h.mono le).right separators_apart_number nil_notMem_number)

theorem opens_coordinate_pair (h : Opens (words "coordinate_pair") c) : InNumber c := by
  rw [words_coordinate_pair_eq] at h
  exact over_number.opens (h.left nil_notMem_number)

/-- After a pair, a longer pair goes on with a character of a number. -/
theorem goesOn_coordinate_pair (h : GoesOn (words "coordinate_pair") c) : InNumber c := by
  rw [words_coordinate_pair_eq] at h
  exact goesOn_seconds (h.right number_apart_seconds nil_notMem_seconds)

theorem nil_notMem_coordinate_pair : [] ∉ words "coordinate_pair" := by
  rw [words_coordinate_pair_eq, nil_mem_mul]
  exact fun h => nil_notMem_number h.1

theorem opens_further_pair (h : Opens (words "comma_wsp" * words "coordinate_pair") c) :
    InSeparator c :=
  over_comma_wsp.opens (h.left nil_notMem_comma_wsp)

theorem goesOn_further_pair (h : GoesOn (words "comma_wsp" * words "coordinate_pair") c) :
    InNumber c := by
  have apart : Apart (words "comma_wsp") (words "coordinate_pair") :=
    comma_wsp_apart fun _ => opens_coordinate_pair
  exact goesOn_coordinate_pair (h.right apart nil_notMem_coordinate_pair)

theorem opens_coordinate_pairs (h : Opens (words "coordinate_pairs") c) : InNumber c := by
  rw [words_coordinate_pairs] at h
  exact opens_coordinate_pair (h.left nil_notMem_coordinate_pair)

theorem closes_coordinate_pair (h : Closes (words "coordinate_pair") c) : InNumber c := by
  rw [words_coordinate_pair_eq] at h
  rcases (h.right nil_notMem_seconds).of_add with h | h
  · exact over_number.closes (h.right nil_notMem_number)
  · exact over_number.closes (h.mono negative_coordinate_le)

/-- A list of pairs ends as a number does. -/
theorem closes_coordinate_pairs (h : Closes (words "coordinate_pairs") c) : InNumber c := by
  rw [words_coordinate_pairs] at h
  rcases h.of_mul with h | ⟨-, h⟩
  · exact closes_coordinate_pair (h.of_kstar.right nil_notMem_coordinate_pair)
  · exact closes_coordinate_pair h

end OrderedGrammar.Points
