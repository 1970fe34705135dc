import Mathlib
import OrderedGrammar.Number.Decimal

/-!
Numerals that can be read. A numeral is a sign that may be missing, digits with a point or not, and
an exponent that may be missing. None of the steps of reading stands in its way: there is nothing to
trim and nothing to drop, the digits are read up to the point and behind it, and what is left is the
exponent (`read?_isSome`).
-/

namespace OrderedGrammar.Decimal

open OrderedGrammar.Text

/-! ### Numerals -/

/-- One or more digits, among which there may be a point, also first or last. -/
def IsMantissa (m : List Char) : Prop :=
  ∃ whole fraction : List Char, (∀ c ∈ whole, c.isDigit) ∧ (∀ c ∈ fraction, c.isDigit) ∧
    whole ++ fraction ≠ [] ∧ (m = whole ++ '.' :: fraction ∨ fraction = [] ∧ m = whole)

/-- A sign or nothing. -/
def IsSign (s : List Char) : Prop := s = [] ∨ s = ['+'] ∨ s = ['-']

/-- Nothing, or a letter and digits with a sign. -/
def IsExponent (x : List Char) : Prop :=
  x = [] ∨ ∃ letter sign digits, (letter = 'e' ∨ letter = 'E') ∧ IsSign sign ∧ digits ≠ [] ∧
    (∀ c ∈ digits, c.isDigit) ∧ x = letter :: (sign ++ digits)

/-- A mantissa between a sign and an exponent. -/
def IsNumeral (w : List Char) : Prop :=
  ∃ sign mantissa exponent, IsSign sign ∧ IsMantissa mantissa ∧ IsExponent exponent ∧
    w = sign ++ (mantissa ++ exponent)

/-! ### Characters that are read as they are -/

/-- Characters of numerals, and others that reading does not change. -/
def IsPlain (c : Char) : Prop := 0x2B ≤ c.toNat ∧ c.toNat ≤ 0x65 ∧ c.toNat ≠ 0x5F

instance : DecidablePred IsPlain := fun _ => inferInstanceAs (Decidable (_ ∧ _ ∧ _))

theorem toNat_of_isDigit {c : Char} (h : c.isDigit) : 48 ≤ c.toNat ∧ c.toNat ≤ 57 := by
  simpa [Char.isDigit, UInt32.le_iff_toNat_le] using h

theorem isPlain_of_isDigit {c : Char} (h : c.isDigit) : IsPlain c := by
  have := toNat_of_isDigit h
  unfold IsPlain
  omega

theorem IsPlain.not_white {c : Char} (h : IsPlain c) : isWhiteSpace c = false := by
  obtain ⟨h1, h2, -⟩ := h
  simp [isWhiteSpace, isBlank]
  omega

theorem IsPlain.ne_underscore {c : Char} (h : IsPlain c) : c ≠ '_' := by
  rintro rfl
  exact h.2.2 rfl

theorem IsPlain.toAsciiDigit {c : Char} (h : IsPlain c) : toAsciiDigit c = c := by
  have hascii : isAscii c = true := by
    have := h.2.1
    simp [isAscii]
    omega
  unfold Decimal.toAsciiDigit isDecimalDigit
  rw [if_pos hascii]
  split
  · next hd =>
    have := toNat_of_isDigit hd
    apply Char.toNat_inj.mp
    rw [digitValue, if_pos hascii, Nat.toNat_digitChar_of_lt_ten (by simp; omega)]
    simp
    omega
  · rfl

theorem dropWhile_of_plain {w : List Char} (h : ∀ c ∈ w, IsPlain c) :
    w.dropWhile isWhiteSpace = w := by
  cases w with
  | nil => rfl
  | cons c w => rw [List.dropWhile_cons_of_neg (by simp [(h c (List.mem_cons_self ..)).not_white])]

theorem trim_of_plain {w : List Char} (h : ∀ c ∈ w, IsPlain c) : trim w = w := by
  rw [trim, dropWhile_of_plain h, dropWhile_of_plain (by simpa using h), List.reverse_reverse]

theorem dropUnderscores_of_plain {w : List Char} {previous : Char} (hp : previous ≠ '_')
    (h : ∀ c ∈ w, IsPlain c) : dropUnderscores previous w = some w := by
  induction w generalizing previous with
  | nil => rw [dropUnderscores, if_neg hp]
  | cons c w ih =>
    obtain ⟨hc, hw⟩ := List.forall_mem_cons.mp h
    rw [dropUnderscores, if_neg hc.ne_underscore, if_neg (by simp [hp]), ih hc.ne_underscore hw]
    rfl

/-- Plain characters are read as they are. -/
theorem read?_of_plain {w : List Char} (h : ∀ c ∈ w, IsPlain c) :
    read? (String.ofList w) = unsigned? (takeSign w).1 (takeSign w).2 := by
  have hmap : w.map Decimal.toAsciiDigit = w := by
    rw [List.map_congr_left fun c hc => (h c hc).toAsciiDigit, List.map_id']
  rw [read?, String.toList_ofList, trim_of_plain h, hmap, dropUnderscores_of_plain (by decide) h]
  rfl

/-! ### Reading numerals -/

theorem isPlain_of_isSign {s : List Char} (h : IsSign s) : ∀ c ∈ s, IsPlain c := by
  rcases h with rfl | rfl | rfl <;> simp [IsPlain]

theorem isPlain_of_isMantissa {m : List Char} (h : IsMantissa m) : ∀ c ∈ m, IsPlain c := by
  obtain ⟨whole, fraction, hw, hf, -, rfl | ⟨-, rfl⟩⟩ := h
  · intro c hc
    rcases List.mem_append.mp hc with hc | hc
    · exact isPlain_of_isDigit (hw c hc)
    · rcases List.mem_cons.mp hc with rfl | hc
      · decide
      · exact isPlain_of_isDigit (hf c hc)
  · exact fun c hc => isPlain_of_isDigit (hw c hc)

theorem isPlain_of_isExponent {x : List Char} (h : IsExponent x) : ∀ c ∈ x, IsPlain c := by
  obtain rfl | ⟨letter, sign, digits, hl, hs, -, hd, rfl⟩ := h
  · simp
  · intro c hc
    rcases List.mem_cons.mp hc with rfl | hc
    · rcases hl with rfl | rfl <;> decide
    · rcases List.mem_append.mp hc with hc | hc
      · exact isPlain_of_isSign hs c hc
      · exact isPlain_of_isDigit (hd c hc)

theorem isPlain_of_isNumeral {w : List Char} (h : IsNumeral w) : ∀ c ∈ w, IsPlain c := by
  obtain ⟨s, m, x, hs, hm, hx, rfl⟩ := h
  simp only [List.mem_append]
  rintro c (hc | hc | hc)
  · exact isPlain_of_isSign hs c hc
  · exact isPlain_of_isMantissa hm c hc
  · exact isPlain_of_isExponent hx c hc

/-- A mantissa begins with a digit or a point. -/
theorem IsMantissa.eq_cons {m : List Char} (h : IsMantissa m) :
    ∃ c rest, m = c :: rest ∧ (c.isDigit ∨ c = '.') := by
  obtain ⟨whole, fraction, hw, -, hne, hm⟩ := h
  cases whole with
  | nil =>
    obtain rfl | ⟨rfl, -⟩ := hm
    · exact ⟨_, _, rfl, Or.inr rfl⟩
    · simp at hne
  | cons c whole =>
    have hc := hw c (List.mem_cons_self ..)
    obtain rfl | ⟨-, rfl⟩ := hm
    · exact ⟨_, _, rfl, Or.inl hc⟩
    · exact ⟨_, _, rfl, Or.inl hc⟩

theorem takeSign_append {s r : List Char} (hs : IsSign s) {c : Char} {rest : List Char}
    (hr : r = c :: rest) (hc : c.isDigit ∨ c = '.') : (takeSign (s ++ r)).2 = r := by
  subst hr
  rcases hs with rfl | rfl | rfl
  · have h1 : c ≠ '-' := by rintro rfl; simp at hc
    have h2 : c ≠ '+' := by rintro rfl; simp at hc
    rw [List.nil_append]
    unfold takeSign
    split <;> simp_all
  · rfl
  · rfl

/-- Digits end where something else stands. -/
theorem span_digits {digits rest : List Char} (h : ∀ c ∈ digits, c.isDigit)
    (hr : ∀ c ∈ rest.head?, ¬ c.isDigit) : (digits ++ rest).span Char.isDigit = (digits, rest) := by
  rw [List.span_eq_takeWhile_dropWhile, List.takeWhile_append_of_pos h,
    List.dropWhile_append_of_pos h]
  cases rest with
  | nil => simp
  | cons c rest => simp [hr c rfl]

theorem IsExponent.head_not_digit {x : List Char} (h : IsExponent x) :
    ∀ c ∈ x.head?, ¬ c.isDigit ∧ c ≠ '.' := by
  obtain rfl | ⟨letter, sign, digits, hl, -, -, -, rfl⟩ := h
  · simp
  · rintro c ⟨⟩
    rcases hl with rfl | rfl <;> decide

/-- What is read of a mantissa are its digits, and the exponent is left. -/
theorem takeMantissa_append {m x : List Char} (hm : IsMantissa m) (hx : IsExponent x) :
    ∃ digits places, takeMantissa (m ++ x) = (digits, places, x) ∧ digits ≠ [] := by
  have hhead := hx.head_not_digit
  obtain ⟨whole, fraction, hw, hf, hne, rfl | ⟨rfl, rfl⟩⟩ := hm
  · refine ⟨whole ++ fraction, fraction.length, ?_, hne⟩
    rw [takeMantissa, List.append_assoc, List.cons_append,
      span_digits hw (by simp)]
    simp only
    rw [span_digits hf fun c hc => (hhead c hc).1]
  · refine ⟨m, 0, ?_, by simpa using hne⟩
    rw [takeMantissa, span_digits hw fun c hc => (hhead c hc).1]
    cases x with
    | nil => rfl
    | cons c x =>
      have hpoint := (hhead c rfl).2
      dsimp only
      split
      · next h => exact absurd (List.cons.inj h).1 hpoint
      · rfl

theorem exponent?_isSome {x : List Char} (h : IsExponent x) : (exponent? x).isSome := by
  obtain rfl | ⟨letter, sign, digits, hl, hs, hne, hd, rfl⟩ := h
  · rfl
  · obtain ⟨c, rest, hdc⟩ := List.exists_cons_of_ne_nil hne
    have hsign := takeSign_append hs hdc (Or.inl (hd c (by simp [hdc])))
    simp only [exponent?, hsign]
    rw [if_pos]
    · rfl
    · simp only [Bool.and_eq_true, Bool.or_eq_true, decide_eq_true_eq, List.all_eq_true]
      exact ⟨⟨hl, by simpa using hne⟩, hd⟩

/-- Text that begins with a digit or a point begins like no name of a value. -/
theorem toLower_ne {c d : Char} (hc : c.isDigit ∨ c = '.') (hd : d.isDigit = false) (hp : d ≠ '.') :
    c.toLower ≠ d := by
  have : c.toLower = c := by
    rcases hc with hc | rfl
    · have := toNat_of_isDigit hc
      unfold Char.toLower
      rw [dif_neg]
      rintro ⟨h, -⟩
      have := UInt32.le_iff_toNat_le.mp h
      change 65 ≤ c.toNat at this
      omega
    · rfl
  rw [this]
  rintro rfl
  rcases hc with hc | hc
  · exact Bool.false_ne_true (hd.symm.trans hc)
  · exact hp hc

theorem unsigned?_isSome {negative : Bool} {m x : List Char} (hm : IsMantissa m)
    (hx : IsExponent x) : (unsigned? negative (m ++ x)).isSome := by
  obtain ⟨c, rest, hmc, hc⟩ := hm.eq_cons
  obtain ⟨digits, places, htake, hne⟩ := takeMantissa_append hm hx
  have no_name : ∀ (d : Char) (name : List Char), d.isDigit = false → d ≠ '.' →
      String.ofList ((m ++ x).map Char.toLower) ≠ String.ofList (d :: name) := by
    intro d name hd hp h
    have := String.ofList_injective h
    rw [hmc] at this
    exact toLower_ne hc hd hp (List.cons.inj this).1
  unfold unsigned?
  split
  · next h => exact absurd h (no_name 'i' ['n', 'f'] rfl (by decide))
  · next h => exact absurd h (no_name 'i' ['n', 'f', 'i', 'n', 'i', 't', 'y'] rfl (by decide))
  · next h => exact absurd h (no_name 'n' ['a', 'n'] rfl (by decide))
  · rw [htake]
    simp only [List.isEmpty_iff, hne, if_false]
    simpa using exponent?_isSome hx

/-- Every numeral can be read. -/
theorem read?_isSome {w : List Char} (h : IsNumeral w) : (read? (String.ofList w)).isSome := by
  have plain := isPlain_of_isNumeral h
  obtain ⟨s, m, x, hs, hm, hx, rfl⟩ := h
  obtain ⟨c, rest, hmc, hc⟩ := hm.eq_cons
  have hmx : m ++ x = c :: (rest ++ x) := by rw [hmc, List.cons_append]
  rw [read?_of_plain plain, takeSign_append hs hmx hc]
  exact unsigned?_isSome hm hx

end OrderedGrammar.Decimal
