import Mathlib
import OrderedGrammar.Number.General

/-!
Characters of numbers that are shown. Whatever the format, a number is written with digits, signs, a
point, the letter of the exponent and the letters of the special values (`shown_render`), so it
never breaks a line.
-/

namespace OrderedGrammar

namespace Layout

/-- A digit, or a character of signs, points, exponents and special values. -/
def isShown (c : Char) : Bool := c.isDigit || "-+.einfa".toList.contains c

/-- Nothing but characters of numbers. -/
def Shown (s : List Char) : Prop := ∀ c ∈ s, isShown c

theorem Shown.append {s t : List Char} (h : Shown s) (h' : Shown t) : Shown (s ++ t) :=
  List.forall_mem_append.mpr ⟨h, h'⟩

theorem Shown.cons {c : Char} {s : List Char} (hc : isShown c) (h : Shown s) : Shown (c :: s) :=
  List.forall_mem_cons.mpr ⟨hc, h⟩

theorem Shown.mono {s t : List Char} (h : Shown s) (sub : t ⊆ s) : Shown t :=
  fun c hc => h c (sub hc)

theorem shown_nil : Shown [] := by simp [Shown]

theorem shown_zeros (n : Nat) : Shown (List.replicate n '0') := by
  intro c hc
  rw [(List.mem_replicate.mp hc).2]
  rfl

theorem shown_toDigits (n : Nat) : Shown (Nat.toDigits 10 n) := by
  intro c hc
  have digit : c.isDigit := Nat.isDigit_of_mem_toDigits (by decide) (by decide) hc
  rw [isShown, digit, Bool.true_or]

theorem shown_dropTrailingZeros {s : List Char} (h : Shown s) : Shown (dropTrailingZeros s) := by
  refine h.mono fun c hc => ?_
  have kept := List.dropWhile_subset _ (List.mem_reverse.mp hc)
  exact List.mem_reverse.mp kept

theorem shown_withPoint {whole fraction : List Char} (h : Shown whole) (h' : Shown fraction) :
    Shown (withPoint whole fraction) := by
  have dropped := shown_dropTrailingZeros h'
  unfold withPoint
  split
  · exact h
  · exact h.append (.cons (by decide) dropped)

theorem shown_exponentText (x : Int) : Shown (exponentText x) := by
  have sign : isShown (if x < 0 then '-' else '+') := by
    split
    · decide
    · decide
  exact .cons (by decide) (.cons sign ((shown_zeros _).append (shown_toDigits _)))

theorem shown_parts {digits : List Char} (h : Shown digits) (x : Int) :
    Shown (parts digits x).1 ∧ Shown (parts digits x).2 := by
  unfold parts
  split
  · exact ⟨.cons (by decide) shown_nil, (shown_zeros _).append h⟩
  · exact ⟨(h.mono (List.take_subset _ _)).append (shown_zeros _), h.mono (List.drop_subset _ _)⟩

theorem shown_place (layout : Layout) {digits : List Char} (h : Shown digits) (x : Int) :
    Shown (layout.place digits x) := by
  obtain ⟨whole, fraction⟩ := shown_parts h x
  unfold place
  split
  · refine (shown_withPoint ?_ ?_).append (shown_exponentText x)
    · exact h.mono (List.take_subset _ _)
    · exact h.mono (List.drop_subset _ _)
  · have body := shown_withPoint whole fraction
    dsimp only
    split
    · exact body.append (.cons (by decide) (.cons (by decide) shown_nil))
    · exact body

/-- A number is written with characters of numbers only, if its digits are digits. -/
theorem shown_render (layout : Layout) {digits : Nat → Nat → List Char × Int}
    (h : ∀ num den, Shown (digits num den).1) (x : Binary64) :
    Shown (layout.render digits x).toList := by
  have body : Shown (layout.unsigned digits x) := by
    unfold unsigned
    split_ifs
    · simp [Shown, isShown]
    · simp [Shown, isShown]
    · dsimp only
      split_ifs
      · exact shown_place layout (.cons (by decide) shown_nil) 0
      · exact shown_place layout (h _ _) _
  unfold render
  rw [String.toList_ofList]
  split
  · exact .cons (by decide) body
  · exact body

end Layout

/-- A number shown for reading stays on its line. -/
theorem General.lineFeed_notMem_render (x : Binary64) : '\n' ∉ (General.render x).toList := by
  intro h
  have shown := Layout.shown_render General.layout (fun _ _ => Layout.shown_toDigits _) x '\n' h
  simp [Layout.isShown] at shown

end OrderedGrammar
