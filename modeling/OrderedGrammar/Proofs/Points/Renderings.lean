import OrderedGrammar.Proofs.Points.Words

/-!
Point lists as they are written. The two numerals of a pair have a separator between them, or
nothing where the second begins with a minus sign; pairs have separators between them, and the list
may have blanks around it. All of this is derived by the rules (`Renders.mem`), and a text renders
at most one list of pairs: no numeral or separator goes on as what follows it begins
(`Renders.unique`).
-/

namespace OrderedGrammar.Points

open Words
open scoped Computability

variable [Regex] [Symbols]

/-- Two numerals. -/
abbrev Numerals := List Char × List Char

/-- The text renders the pair. -/
inductive RendersPair : Numerals → List Char → Prop
  | separated {m s n} (hm : m ∈ words "number") (hs : s ∈ words "comma_wsp")
    (hn : n ∈ words "number") : RendersPair (m, n) (m ++ (s ++ n))
  /-- A minus sign needs no separator before it. -/
  | adjacent {m n} (hm : m ∈ words "number") (hn : n ∈ words "number")
    (minus : n.head? = some '-') : RendersPair (m, n) (m ++ n)

/-- The text renders the pairs, with a separator before each. -/
inductive RendersFurther : List Numerals → List Char → Prop
  | nil : RendersFurther [] []
  | cons {s p w ps r} (hs : s ∈ words "comma_wsp") (hp : RendersPair p w)
    (hps : RendersFurther ps r) : RendersFurther (p :: ps) (s ++ (w ++ r))

/-- The text renders the list of pairs. -/
inductive Renders : List Numerals → List Char → Prop
  | blank {b} (hb : b ∈ (words "wsp")∗) : Renders [] b
  | pairs {b p w ps r e} (hb : b ∈ (words "wsp")∗) (hp : RendersPair p w)
    (hps : RendersFurther ps r) (he : e ∈ (words "wsp")∗) :
    Renders (p :: ps) (b ++ (w ++ (r ++ e)))

/-! ### Renderings are derived -/

variable [LawfulSymbols]

/-- A number that begins with a minus sign is one that may follow another directly. -/
theorem mem_negative_coordinate {n : List Char} (hn : n ∈ words "number")
    (minus : n.head? = some '-') : n ∈ words "negative_coordinate" := by
  rw [words_number, ← mul_add] at hn
  rw [words_negative_coordinate, ← mul_add]
  obtain ⟨s, hs, u, hu, rfl⟩ := hn
  refine ⟨s, ?_, u, hu, rfl⟩
  rw [words_sign] at hs
  change (s ++ u).head? = some '-' at minus
  rcases hs with hs | ⟨c, -, rfl⟩
  · -- without its sign, a number begins with a digit or a point
    obtain rfl := (Language.mem_one _).mp hs
    obtain ⟨y, rfl⟩ : ∃ y, u = '-' :: y := List.head?_eq_some_iff.mp minus
    have : InMantissa '-' := by
      rcases hu with hu | hu
      · exact opens_floating_point_constant ⟨y, hu⟩
      · exact Or.inl (over_integer_constant.opens ⟨y, hu⟩)
    simp at this
  · obtain rfl : c = '-' := Option.some.inj minus
    exact ⟨'-', rfl, rfl⟩

theorem head?_negative_coordinate {n : List Char} (hn : n ∈ words "negative_coordinate") :
    n.head? = some '-' := by
  obtain ⟨c, v, rfl⟩ := List.exists_cons_of_ne_nil fun h : n = [] =>
    nil_notMem_negative_coordinate (h ▸ hn)
  have minus : IsMinus c := opens_negative_coordinate ⟨v, hn⟩
  rw [List.head?_cons, show c = '-' from Char.toNat_inj.mp minus]

section Derived

variable {p : Numerals} {ps : List Numerals} {w r e : List Char}

/-- A pair is two numbers with blanks and commas between them, if anything. -/
theorem RendersPair.cut (h : RendersPair p w) : ∃ s ∈ (single InSeparator)∗,
    w = p.1 ++ (s ++ p.2) ∧ p.1 ∈ words "number" ∧ p.2 ∈ words "number" ∧
      s ++ p.2 ∈ seconds := by
  cases h with
  | @separated m s n hm hs hn =>
    exact ⟨s, mem_kstar_single.mpr (over_comma_wsp s hs), rfl, hm, hn,
      Or.inl (Language.append_mem_mul hs hn)⟩
  | @adjacent m n hm hn minus =>
    exact ⟨[], Language.nil_mem_kstar _, rfl, hm, hn, Or.inr (mem_negative_coordinate hn minus)⟩

theorem RendersPair.mem (h : RendersPair p w) : w ∈ words "coordinate_pair" := by
  obtain ⟨s, -, rfl, hm, -, hs⟩ := h.cut
  rw [words_coordinate_pair_eq]
  exact Language.append_mem_mul hm hs

theorem RendersFurther.mem (h : RendersFurther ps r) :
    r ∈ (words "comma_wsp" * words "coordinate_pair")∗ := by
  induction h with
  | nil => exact Language.nil_mem_kstar _
  | cons hs hp _ ih =>
    rw [← List.append_assoc]
    have both := Language.append_mem_mul (Language.append_mem_mul hs hp.mem) ih
    exact Set.mem_of_mem_of_subset both (mul_kstar_le_kstar (a := words "comma_wsp" * _))

/-- A rendering is a point list. -/
theorem Renders.mem (h : Renders ps w) : w ∈ words "list_of_points" := by
  rw [words_list_of_points]
  cases h with
  | blank hb =>
    rw [← List.append_nil w]
    exact Language.append_mem_mul hb
      (nil_mem_mul.mpr ⟨Or.inl (Language.nil_mem_one), Language.nil_mem_kstar _⟩)
  | @pairs b p w ps r e hb hp hps he =>
    refine Language.append_mem_mul hb ?_
    rw [← List.append_assoc]
    refine Language.append_mem_mul (Or.inr ?_) he
    rw [words_coordinate_pairs]
    exact Language.append_mem_mul hp.mem hps.mem

end Derived

/-! ### Renderings are unambiguous -/

/-- What follows a pair up to the end of the text. -/
def tails : Language Char :=
  (words "comma_wsp" * words "coordinate_pair")∗ * (words "wsp")∗

theorem opens_tails {c : Char} (h : Opens tails c) : InSeparator c := by
  rcases h.of_mul with h | ⟨-, h⟩
  · exact opens_further_pair h.of_kstar
  · exact Or.inl (over_wsp.opens h.of_kstar)

theorem coordinate_pair_apart_tails : Apart (words "coordinate_pair") tails :=
  fun _ hg ho => not_inSeparator (goesOn_coordinate_pair hg) (opens_tails ho)

/-- The first pair and all that follows it. -/
theorem opens_pair_and_tail {c : Char} (h : Opens (words "coordinate_pair" * tails) c) :
    InNumber c :=
  opens_coordinate_pair (h.left nil_notMem_coordinate_pair)

section Unique

variable {p p' : Numerals} {ps ps' : List Numerals} {w r r' e e' : List Char}

theorem RendersFurther.mem_tails (h : RendersFurther ps r) (he : e ∈ (words "wsp")∗) :
    r ++ e ∈ tails :=
  Language.append_mem_mul h.mem he

theorem RendersPair.unique (h : RendersPair p w) (h' : RendersPair p' w) : p = p' := by
  obtain ⟨s, hs, rfl, hm, hn, hr⟩ := h.cut
  obtain ⟨s', hs', hw, hm', hn', hr'⟩ := h'.cut
  obtain ⟨first, rest⟩ := number_apart_seconds.cut hm hm' hr hr' hw
  obtain ⟨-, second⟩ := separators_apart_number.cut hs hs' hn hn' rest
  exact Prod.ext first second

/-- A pair is not made of blanks. -/
theorem RendersPair.not_blank (h : RendersPair p w) {x y : List Char} :
    x ++ (w ++ y) ∉ (words "wsp")∗ := by
  intro hb
  obtain ⟨c, v, rfl⟩ := List.exists_cons_of_ne_nil fun hn : w = [] =>
    nil_notMem_coordinate_pair (hn ▸ h.mem)
  have number : InNumber c := opens_coordinate_pair ⟨v, h.mem⟩
  have blank : IsBlank c := over_wsp.kstar _ hb c (by simp)
  exact not_inSeparator number (Or.inl blank)

/-- Pairs and the blanks behind them are told apart from the left. -/
theorem RendersFurther.unique (h : RendersFurther ps r) (h' : RendersFurther ps' r')
    (he : e ∈ (words "wsp")∗) (he' : e' ∈ (words "wsp")∗) (heq : r ++ e = r' ++ e') :
    ps = ps' := by
  induction h generalizing ps' r' with
  | nil =>
    cases h' with
    | nil => rfl
    | cons hs hp _ =>
      rw [List.nil_append, List.append_assoc, List.append_assoc] at heq
      exact absurd (heq ▸ he) hp.not_blank
  | @cons s p w ps r hs hp hps ih =>
    cases h' with
    | nil =>
      rw [List.nil_append, List.append_assoc, List.append_assoc] at heq
      exact absurd (heq ▸ he') hp.not_blank
    | @cons s' p' w' ps' r' hs' hp' hps' =>
      simp only [List.append_assoc] at heq
      have tail := hps.mem_tails he
      have tail' := hps'.mem_tails he'
      obtain ⟨-, heq⟩ := (comma_wsp_apart fun _ => opens_pair_and_tail).cut hs hs'
        (Language.append_mem_mul hp.mem tail) (Language.append_mem_mul hp'.mem tail') heq
      obtain ⟨rfl, rest⟩ := coordinate_pair_apart_tails.cut hp.mem hp'.mem tail tail' heq
      rw [hp.unique hp', ih hps' rest]

/-- A text renders at most one list of pairs. -/
theorem Renders.unique (h : Renders ps w) (h' : Renders ps' w) : ps = ps' := by
  cases h with
  | blank hb =>
    cases h' with
    | blank => rfl
    | pairs _ hp _ _ => exact absurd hb hp.not_blank
  | @pairs b p v ps r e hb hp hps he =>
    generalize hw : b ++ (v ++ (r ++ e)) = w at h'
    cases h' with
    | blank hb' => exact absurd (hw ▸ hb') hp.not_blank
    | @pairs b' p' v' ps' r' e' hb' hp' hps' he' =>
      have blanks : Apart (words "wsp")∗ (words "coordinate_pair" * tails) := fun c hg ho =>
        not_inSeparator (opens_pair_and_tail ho) (Or.inl (over_wsp.kstar.goesOn hg))
      have tail := hps.mem_tails he
      have tail' := hps'.mem_tails he'
      obtain ⟨-, heq⟩ := blanks.cut hb hb' (Language.append_mem_mul hp.mem tail)
        (Language.append_mem_mul hp'.mem tail') hw
      obtain ⟨rfl, rest⟩ := coordinate_pair_apart_tails.cut hp.mem hp'.mem tail tail' heq
      rw [hp.unique hp', hps.unique hps' he he' rest]

end Unique

end OrderedGrammar.Points
