import OrderedGrammar.Proofs.Number.Decimal
import OrderedGrammar.Proofs.Points.Words

/-!
The numbers of point lists are numerals: what the rule of numbers derives is a mantissa with a sign
and an exponent, which may both be missing, so that it can be read as a decimal number.
-/

namespace OrderedGrammar.Points

open Words Decimal

theorem isDigit_iff {c : Char} : c.isDigit = true ↔ IsDigit c := by
  simp [Char.isDigit, UInt32.le_iff_toNat_le]

variable [Regex] [Symbols] [LawfulSymbols]

theorem digits_of_mem {w : List Char} (h : w ∈ words "digit_sequence") :
    w ≠ [] ∧ ∀ c ∈ w, c.isDigit := by
  rw [words_digit_sequence, mem_single_mul_kstar] at h
  exact ⟨h.1, fun c hc => isDigit_iff.mpr (h.2 c hc)⟩

theorem isSign_of_mem {w : List Char} (h : w ∈ 1 + words "sign") : Decimal.IsSign w := by
  rw [words_sign] at h
  rcases h with h | ⟨c, hc | hc, rfl⟩
  · exact Or.inl ((Language.mem_one _).mp h)
  · exact Or.inr (Or.inl (by rw [show c = '+' from Char.toNat_inj.mp hc]))
  · exact Or.inr (Or.inr (by rw [show c = '-' from Char.toNat_inj.mp hc]))

theorem isExponent_of_mem {w : List Char} (h : w ∈ words "exponent") : IsExponent w := by
  rw [words_exponent] at h
  obtain ⟨_, ⟨c, hc, rfl⟩, _, ⟨sign, hs, digits, hd, rfl⟩, rfl⟩ := h
  obtain ⟨hne, hd⟩ := digits_of_mem hd
  exact Or.inr ⟨c, sign, digits, hc.imp Char.toNat_inj.mp Char.toNat_inj.mp, isSign_of_mem hs, hne,
    hd, rfl⟩

theorem isExponent_of_mem_one_add {w : List Char} (h : w ∈ 1 + words "exponent") :
    IsExponent w :=
  h.elim (fun h => Or.inl ((Language.mem_one _).mp h)) isExponent_of_mem

theorem isMantissa_of_digits {w : List Char} (h : w ∈ words "digit_sequence") : IsMantissa w :=
  let ⟨hne, hd⟩ := digits_of_mem h
  ⟨w, [], hd, by simp, by simpa using hne, Or.inr ⟨rfl, rfl⟩⟩

theorem isMantissa_of_fraction {w : List Char} (h : w ∈ words "fractional_constant") :
    IsMantissa w := by
  rw [words_fractional_constant] at h
  rcases h with ⟨a, ha, _, ⟨_, ⟨p, hp, rfl⟩, d, hd, rfl⟩, rfl⟩ | ⟨d, hd, _, ⟨p, hp, rfl⟩, rfl⟩
  · obtain rfl : p = '.' := Char.toNat_inj.mp hp
    obtain ⟨hne, hd⟩ := digits_of_mem hd
    have digits : ∀ c ∈ a, c.isDigit := by
      rcases ha with ha | ha
      · rw [(Language.mem_one _).mp ha]
        simp
      · exact (digits_of_mem ha).2
    exact ⟨a, d, digits, hd, by simp [hne], Or.inl rfl⟩
  · obtain rfl : p = '.' := Char.toNat_inj.mp hp
    obtain ⟨hne, hd⟩ := digits_of_mem hd
    exact ⟨d, [], hd, by simp, by simpa using hne, Or.inl rfl⟩

/-- A number is a numeral. -/
theorem isNumeral_of_number {w : List Char} (h : w ∈ words "number") : IsNumeral w := by
  rw [words_number, words_floating_point_constant, words_integer_constant] at h
  rcases h with ⟨s, hs, _, ⟨m, hm, x, hx, rfl⟩ | ⟨m, hm, x, hx, rfl⟩, rfl⟩ | ⟨s, hs, m, hm, rfl⟩
  · exact ⟨s, m, x, isSign_of_mem hs, isMantissa_of_fraction hm, isExponent_of_mem_one_add hx, rfl⟩
  · exact ⟨s, m, x, isSign_of_mem hs, isMantissa_of_digits hm, isExponent_of_mem hx, rfl⟩
  · exact ⟨s, m, [], isSign_of_mem hs, isMantissa_of_digits hm, Or.inl rfl, by simp⟩

end OrderedGrammar.Points
