/-!
Two editions of the repertoire of characters are in use. Patterns know the later one. Names,
numerals and quoted texts rest on an earlier one, in which the code points listed here hold no
character yet.
-/

namespace OrderedGrammar.Text

/-- The first and the last code point of each stretch of characters that joined the repertoire late,
in order. -/
def lateAdditions : List (Nat × Nat) := [
  (0x558, 0x558), (0x58B, 0x58C), (0x5C8, 0x5C8), (0x88F, 0x88F), (0x897, 0x897), (0xC5C, 0xC5C),
  (0xCDC, 0xCDC), (0xCF3, 0xCF3), (0xECE, 0xECE), (0x1ACF, 0x1AEB), (0x1B4E, 0x1B4F),
  (0x1B7F, 0x1B7F), (0x1C89, 0x1C8A), (0x20C1, 0x20C1), (0x2427, 0x2429), (0x2B96, 0x2B96),
  (0x2E62, 0x2E63), (0x2FFC, 0x2FFF), (0x31E4, 0x31EF), (0xA7CB, 0xA7CF), (0xA7D2, 0xA7D2),
  (0xA7D4, 0xA7D4), (0xA7DA, 0xA7F1), (0xAB6C, 0xAB6C), (0xFBC3, 0xFBD2), (0xFD90, 0xFD91),
  (0xFDC8, 0xFDCE), (0x105C0, 0x105F3), (0x10940, 0x10959), (0x10D40, 0x10D8F), (0x10EC2, 0x10EFF),
  (0x1123F, 0x11241), (0x11380, 0x113E2), (0x116D0, 0x116E3), (0x11B00, 0x11BF9),
  (0x11DB0, 0x11DE9), (0x11F00, 0x11F5A), (0x12550, 0x1268F), (0x1342F, 0x1342F),
  (0x13439, 0x143FA), (0x16100, 0x16139), (0x16D40, 0x16D79), (0x16EA0, 0x16ED3),
  (0x16FF2, 0x16FF6), (0x187F8, 0x187FF), (0x18CFF, 0x18CFF), (0x18D09, 0x18DF2),
  (0x1B132, 0x1B132), (0x1B155, 0x1B155), (0x1CC00, 0x1CEF0), (0x1D2C0, 0x1D2D3),
  (0x1DF25, 0x1DF2A), (0x1DF95, 0x1DF95), (0x1E030, 0x1E08F), (0x1E4D0, 0x1E6FF),
  (0x1F6D8, 0x1F6DC), (0x1F774, 0x1F77F), (0x1F7D9, 0x1F7D9), (0x1F8B2, 0x1F8D8),
  (0x1FA54, 0x1FA57), (0x1FA75, 0x1FA77), (0x1FA87, 0x1FA8F), (0x1FAAD, 0x1FAAF),
  (0x1FABB, 0x1FABF), (0x1FAC6, 0x1FACF), (0x1FADA, 0x1FADF), (0x1FAE8, 0x1FAEF),
  (0x1FAF7, 0x1FAF8), (0x1FBCB, 0x1FBEF), (0x1FBFA, 0x1FBFA), (0x2B739, 0x2B73F),
  (0x2CEA2, 0x2CEAD), (0x2EBF0, 0x2EE5D), (0x31350, 0x33479), (0x3D000, 0x3FC3F)]

/-- The character is missing from the earlier edition. -/
def isLateAddition (c : Char) : Bool :=
  lateAdditions.any fun r => r.1 ≤ c.toNat && c.toNat ≤ r.2

end OrderedGrammar.Text
