import OrderedGrammar.Proofs.Matching.Munch
import OrderedGrammar.Proofs.Points.Words

/-!
Matching a point list loses nothing. Rule by rule, what is matched is the longest prefix of the text
in the language of the rule: longer alternatives are told from shorter ones by a character that
those do not have, and an item never takes what the next one needs. Blanks are the exception: the
first blanks of a list or of a separator take those that could stand behind what is left out.
-/

namespace OrderedGrammar.Points

open Matching Words
open scoped Computability

variable [Regex] [Symbols] [LawfulSymbols]

/-! ### Single characters and digits -/

theorem munches_one (symbol : Symbol) : Munches grammar (one symbol) :=
  munches_takesOne (takesOne_terminal symbol)

theorem munches_wsp : Munches grammar (.ref "wsp") := by
  refine munches_ref rfl ?_ ?_
  · simp only [List.forall_mem_cons]
    exact ⟨munches_one _, munches_one _, munches_one _, munches_one _, by simp⟩
  · simp [language_one, single_precedes]

theorem munches_comma : Munches grammar (.ref "comma") :=
  munches_only rfl (munches_one _)

theorem munches_sign : Munches grammar (.ref "sign") :=
  munches_only rfl (munches_one _)

theorem munches_digit : Munches grammar (.ref "digit") :=
  munches_only rfl (munches_one _)

theorem munches_digit_sequence : Munches grammar (.ref "digit_sequence") := by
  have eq : grammar.language (.ref "digit") = single IsDigit := words_digit
  refine munches_only rfl (munches_some munches_digit ?_ ?_)
  · rw [eq]; exact single_marked.nil_notMem
  · rw [eq]; exact single_apart

/-- Blanks, as many as there are. -/
theorem munches_blanks : Munches grammar (anyOf "wsp") :=
  munches_many munches_wsp nil_notMem_wsp wsp_apart

/-! ### Numbers -/

theorem munches_exponent : Munches grammar (.ref "exponent") := by
  refine munches_only rfl (munches_three (munches_one _) (munches_opt munches_sign)
    munches_digit_sequence ?_ ?_)
  · rw [language_one]
    exact single_apart.safe
  · rw [language_maybe]
    exact sign_apart_digit_sequence.safe

/-- A fraction with digits behind its point is not a beginning of one without. -/
theorem fraction_precedes : Precedes
    ((1 + words "digit_sequence") * (single IsPoint * words "digit_sequence"))
    (words "digit_sequence" * single IsPoint) := by
  rintro _ ⟨a, -, _, ⟨_, ⟨p, hp, rfl⟩, d, hd, rfl⟩, rfl⟩ _ ⟨e, he, _, ⟨q, -, rfl⟩, rfl⟩ h
  have hne : d ≠ [] := fun h => nil_notMem_digit_sequence (h ▸ hd)
  change a ++ ([p] ++ d) <+: e ++ [q] at h
  have hlen := h.length_le
  have hpos := List.length_pos_iff.mpr hne
  simp only [List.length_append, List.length_singleton] at hlen
  -- the point of the longer word is among the digits of the other one
  have hpe : a ++ [p] <+: e := by
    refine List.prefix_of_prefix_length_le ?_ (List.prefix_append e [q]) (by simp; omega)
    rw [← List.append_assoc] at h
    exact (List.prefix_append _ d).trans h
  have digit := over_digit_sequence e he p (hpe.subset (by simp))
  simp at digit hp
  omega

theorem munches_fractional_constant : Munches grammar (.ref "fractional_constant") := by
  have point {A : Language Char} (c : Char) (ho : Opens (single IsPoint * A) c) : ¬ IsDigit c := by
    have := single_over.opens (ho.left single_marked.nil_notMem)
    simp at this ⊢
    omega
  have digits {A : Language Char} : Apart (1 + words "digit_sequence") (single IsPoint * A) := by
    intro c hg ho
    refine point c ho ?_
    rcases hg.of_one_add with hg | hg
    · exact over_digit_sequence.opens hg
    · exact over_digit_sequence.goesOn hg
  refine munches_ref rfl ?_ ?_
  · simp only [List.forall_mem_cons]
    refine ⟨munches_three (munches_opt munches_digit_sequence) (munches_one _)
      munches_digit_sequence ?_ ?_, munches_two munches_digit_sequence
      (munches_one _) ?_, by simp⟩
    · rw [language_maybe, language_one]
      exact digits.safe
    · rw [language_one]
      exact single_apart.safe
    · rw [language_one, Symbol.Kind, ← mul_one (single IsPoint)]
      exact (digit_sequence_apart point).safe
  · rw [List.pairwise_pair]
    simp only [Grammar.language_cons, Grammar.language_nil, mul_one, language_maybe, language_one]
    exact fraction_precedes

theorem munches_floating_point_constant : Munches grammar (.ref "floating_point_constant") := by
  have exponent (c : Char) (ho : Opens (words "exponent") c) : ¬ InMantissa c := by
    have := opens_exponent ho
    simp at this ⊢
    omega
  refine munches_ref rfl ?_ ?_
  · simp only [List.forall_mem_cons]
    refine ⟨munches_two munches_fractional_constant (munches_opt munches_exponent) ?_,
      munches_two munches_digit_sequence munches_exponent ?_, by simp⟩
    · rw [language_maybe]
      refine Apart.safe fun c hg ho => ?_
      rcases ho.of_add with ho | ho
      · exact not_opens_one ho
      · exact exponent c ho (over_fractional_constant.goesOn hg)
    · exact (digit_sequence_apart fun c ho h => exponent c ho (Or.inl h)).safe
  · rw [List.pairwise_pair]
    simp only [Grammar.language_cons, Grammar.language_nil, mul_one, language_maybe]
    refine precedes_of_marked marked_fractional_constant.mul_left (Over.mul ?_ ?_)
    · exact over_digit_sequence.imp fun c h => by simp at h ⊢; omega
    · exact over_exponent.imp fun c h => by simp at h ⊢; omega

theorem munches_integer_constant : Munches grammar (.ref "integer_constant") :=
  munches_only rfl munches_digit_sequence

/-- Numbers with a sign in front, fractions and exponents being tried first. -/
theorem munches_signed {name : String} {v : Validator} (h : grammar.rule? name =
      some [.sequence [v, .ref "floating_point_constant"], .sequence [v, .ref "integer_constant"]])
    (hv : Munches grammar v) (signs : Over (grammar.language v) IsSign)
    (apart : ∀ A : Language Char, (∀ c, Opens A c → ¬ IsSign c) → Apart (grammar.language v) A) :
    Munches grammar (.ref name) := by
  refine munches_ref h ?_ ?_
  · simp only [List.forall_mem_cons]
    refine ⟨munches_two hv munches_floating_point_constant (apart _ fun c ho => ?_).safe,
      munches_two hv munches_integer_constant (apart _ fun c ho => ?_).safe, by simp⟩
    · have := opens_floating_point_constant ho
      simp at this ⊢
      omega
    · have := over_integer_constant.opens ho
      simp at this ⊢
      omega
  · rw [List.pairwise_pair]
    simp only [Grammar.language_cons, Grammar.language_nil, mul_one]
    refine precedes_of_marked marked_floating_point_constant.mul_right (Over.mul ?_ ?_)
    · exact signs.imp fun c h => by simp at h ⊢; omega
    · exact over_integer_constant.imp fun c h => by simp at h ⊢; omega

theorem munches_number : Munches grammar (.ref "number") :=
  munches_signed rfl (munches_opt munches_sign)
    (by rw [language_maybe]; exact Over.one.add over_sign)
    (fun A h => by rw [language_maybe]; exact sign_apart h)

theorem munches_negative_coordinate : Munches grammar (.ref "negative_coordinate") :=
  munches_signed rfl (munches_one _)
    (by rw [language_one]; exact single_over.imp fun _ => Or.inr)
    (fun A _ => by rw [language_one]; exact single_apart)

theorem munches_coordinate : Munches grammar (.ref "coordinate") :=
  munches_only rfl munches_number

/-! ### Separators -/

omit [LawfulSymbols] in
/-- Blanks take those that could stand behind something left out. -/
theorem blanks_safe {A B : Language Char} (hA : Over A IsBlank)
    (absorbs : ∀ a ∈ A, ∀ w ∈ (words "wsp")∗, a ++ w ∈ A) (hB : ∀ c, Opens B c → ¬ IsBlank c) :
    Safe A ((1 + B) * (words "wsp")∗) := by
  refine safe_of_absorbed hA ?_ fun a ha c y hc hy => ?_
  · exact nil_mem_mul.mpr ⟨Or.inl rfl, Language.nil_mem_kstar _⟩
  · exact absorbs a ha _ (mem_of_not_opens hy fun ho => hB c ho hc)

omit [Regex] [Symbols] [LawfulSymbols] in
theorem kstar_absorbs (A : Language Char) : ∀ a ∈ A∗, ∀ w ∈ A∗, a ++ w ∈ A∗ := by
  intro a ha w hw
  rw [← kstar_mul_kstar A]
  exact Language.append_mem_mul ha hw

theorem munches_comma_wsp : Munches grammar (.ref "comma_wsp") := by
  have comma (c : Char) (ho : Opens (words "comma") c) : ¬ IsBlank c := by
    have := over_comma.opens ho
    simp at this ⊢
    omega
  refine munches_ref rfl ?_ ?_
  · simp only [List.forall_mem_cons]
    have blanks : Munches grammar (someOf "wsp") :=
      munches_some munches_wsp nil_notMem_wsp wsp_apart
    refine ⟨munches_three blanks (munches_opt munches_comma) munches_blanks ?_ ?_,
      munches_two munches_comma munches_blanks ?_, by simp⟩
    · rw [language_someOf, language_maybe, language_anyOf]
      refine blanks_safe (over_wsp.mul over_wsp.kstar) ?_ comma
      rintro _ ⟨a, ha, b, hb, rfl⟩ w hw
      change (a ++ b) ++ w ∈ _
      rw [List.append_assoc]
      exact Language.append_mem_mul ha (kstar_absorbs _ b hb w hw)
    · rw [language_maybe, language_anyOf]
      refine Apart.safe fun c hg ho => ?_
      have blank := over_wsp.opens ho.of_kstar
      rcases hg.of_one_add with hg | hg
      · exact comma c hg blank
      · have := over_comma.goesOn hg
        simp at this blank
        omega
    · have eq : grammar.language (.ref "comma") = single IsComma := words_comma
      rw [eq]
      exact single_apart.safe
  · rw [List.pairwise_pair]
    simp only [Grammar.language_cons, Grammar.language_nil, mul_one, language_maybe,
      language_anyOf, language_someOf]
    refine precedes_of_opens ?_ fun c h1 h2 => ?_
    · simp [nil_notMem_wsp, -add_eq_sup]
    · have blanks := h1.left fun h => nil_notMem_wsp (nil_mem_mul.mp h).1
      exact comma c (h2.left nil_notMem_comma) (over_wsp.opens (blanks.left nil_notMem_wsp))

/-! ### Pairs and lists -/

theorem munches_coordinate_pair : Munches grammar (.ref "coordinate_pair") := by
  have eq : grammar.language (.ref "coordinate") = words "number" := words_coordinate
  refine munches_ref rfl ?_ ?_
  · simp only [List.forall_mem_cons]
    refine ⟨munches_three munches_coordinate munches_comma_wsp munches_coordinate ?_ ?_,
      munches_two munches_coordinate munches_negative_coordinate ?_, by simp⟩
    · rw [eq]
      exact number_apart_comma_wsp.safe
    · rw [eq]
      exact comma_wsp_apart_number.safe
    · rw [eq]
      exact number_apart_negative_coordinate.safe
  · rw [List.pairwise_pair]
    simp only [Grammar.language_cons, Grammar.language_nil, mul_one]
    rw [eq]
    -- the longer alternative has a separator
    have separator := over_comma_wsp.marked nil_notMem_comma_wsp
    exact precedes_of_marked separator.mul_left.mul_right
      ((over_number.mul fun w hw => over_number w (negative_coordinate_le hw)).imp
        fun c => not_inSeparator)

theorem munches_further_pairs : Munches grammar
    (.quantified (.sequence [.ref "comma_wsp", .ref "coordinate_pair"]) .zeroOrMore) := by
  have eq : grammar.language (.sequence [.ref "comma_wsp", .ref "coordinate_pair"]) =
      words "comma_wsp" * words "coordinate_pair" := by
    rw [Grammar.language_cons, Grammar.language_cons, Grammar.language_nil, mul_one]
    rfl
  refine munches_many (munches_two munches_comma_wsp munches_coordinate_pair ?_) ?_ ?_
  · exact (comma_wsp_apart fun _ => opens_coordinate_pair).safe
  · rw [eq, nil_mem_mul]
    exact fun h => nil_notMem_comma_wsp h.1
  · rw [eq]
    exact fun c hg ho => not_inSeparator (goesOn_further_pair hg) (opens_further_pair ho)

theorem munches_coordinate_pairs : Munches grammar (.ref "coordinate_pairs") := by
  refine munches_only rfl (munches_two munches_coordinate_pair munches_further_pairs ?_)
  rw [Grammar.language_many, Grammar.language_cons, Grammar.language_cons, Grammar.language_nil,
    mul_one]
  refine Apart.safe fun c hg ho => ?_
  exact not_inSeparator (goesOn_coordinate_pair hg) (opens_further_pair ho.of_kstar)

theorem munches_list_of_points : Munches grammar (.ref "list_of_points") := by
  have blank {c : Char} (h : InNumber c) : ¬ IsBlank c := fun hb => not_inSeparator h (Or.inl hb)
  refine munches_only rfl (munches_three munches_blanks (munches_opt munches_coordinate_pairs)
    munches_blanks ?_ ?_)
  · rw [language_anyOf, language_maybe]
    exact blanks_safe over_wsp.kstar (kstar_absorbs _) fun c ho => blank (opens_coordinate_pairs ho)
  · rw [language_maybe, language_anyOf]
    refine safe_of_closes (fun c hc => ?_) over_wsp.kstar (Language.nil_mem_kstar _)
    rcases hc.of_add with hc | hc
    · exact absurd hc not_closes_one
    · exact blank (closes_coordinate_pairs hc)

end OrderedGrammar.Points
