import Mathlib
import OrderedGrammar.Text.Basic

/-!
Slices of a text: how long they are, and how they follow one another; and what a text goes on with
at an offset.
-/

namespace OrderedGrammar.Text

theorem length_slice (t : Text) (start stop : Nat) :
    (t.slice start stop).length = min stop t.size - start := by
  simp only [slice, String.length_ofList, Array.length_toList, Array.size_extract]

theorem slice_of_le {t : Text} {start stop : Nat} (h : min stop t.size ≤ start) :
    t.slice start stop = "" := by
  rw [← String.length_eq_zero_iff, length_slice]
  omega

/-- Two slices that meet make up one. -/
theorem slice_append (t : Text) {a b c : Nat} (hab : a ≤ b) (hbc : b ≤ c) :
    t.slice a b ++ t.slice b c = t.slice a c := by
  simp only [slice, ← String.ofList_append, ← Array.toList_append, Array.extract_append_extract]
  rw [Nat.min_eq_left hab, Nat.max_eq_right hbc]

/-- An offset beyond the text is as good as its end. -/
theorem drop_min (text : Text) (n : Nat) :
    text.toList.drop (min n text.size) = text.toList.drop n := by
  rcases Nat.le_total n text.size with h | h
  · rw [Nat.min_eq_left h]
  · rw [Nat.min_eq_right h, List.drop_eq_nil_of_le (by simp), List.drop_eq_nil_of_le (by simpa)]

theorem getElem?_min (text : Text) (n : Nat) : text[min n text.size]? = text[n]? := by
  rw [← Array.getElem?_toList, ← Array.getElem?_toList, ← List.head?_drop, drop_min,
    List.head?_drop]

/-- A text goes on with characters if it goes on with the first and, behind it, with the others. -/
theorem cons_prefix_drop {text : Text} {c : Char} {cs : List Char} {n : Nat} :
    c :: cs <+: text.toList.drop n ↔ text[n]? = some c ∧ cs <+: text.toList.drop (n + 1) := by
  rcases Nat.lt_or_ge n text.size with h | h
  · have goes : text.toList.drop n = text[n] :: text.toList.drop (n + 1) :=
      List.drop_eq_getElem_cons (by simpa using h)
    rw [goes, List.cons_prefix_cons, Array.getElem?_eq_getElem h, Option.some_inj, eq_comm]
  · have ended : text.toList.drop n = [] := List.drop_eq_nil_of_le (by simpa using h)
    simp [ended, Array.getElem?_eq_none h]

/-- What a text goes on with is the slice of that length. -/
theorem slice_of_prefix {text : Text} {s : String} {n : Nat}
    (h : s.toList <+: text.toList.drop n) : text.slice n (n + s.length) = s := by
  have taken : s.toList = (text.toList.drop n).take s.length := by
    rw [← String.length_toList]
    exact List.prefix_iff_eq_take.mp h
  rw [slice, Array.toList_extract, List.extract_eq_take_drop, Nat.add_sub_cancel_left, ← taken,
    String.ofList_toList]

end OrderedGrammar.Text
