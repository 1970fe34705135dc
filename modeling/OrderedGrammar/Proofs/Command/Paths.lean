import Mathlib
import OrderedGrammar.Command.Files

/-!
Characters of paths. The shortest way to write a path takes its characters from the path, but for
slashes and points (`mem_tidyPath`).
-/

namespace OrderedGrammar.Command

open String.Pos.Raw.extract

variable {c : Char} {s : List Char} {i b e : String.Pos.Raw}

theorem mem_of_mem_takeUpTo (h : c ∈ go₂ s i e) : c ∈ s := by
  induction s generalizing i with
  | nil => exact h
  | cons d s ih =>
    rw [go₂] at h
    split_ifs at h
    · cases h
    · rcases List.mem_cons.mp h with rfl | h
      · exact List.mem_cons_self
      · exact List.mem_cons_of_mem _ (ih h)

theorem mem_of_mem_between (h : c ∈ go₁ s i b e) : c ∈ s := by
  induction s generalizing i with
  | nil => exact h
  | cons d s ih =>
    rw [go₁] at h
    split_ifs at h
    · exact mem_of_mem_takeUpTo h
    · exact List.mem_cons_of_mem _ (ih h)

/-- A part of a text holds characters of the text only. -/
theorem mem_of_mem_extract {s : String} (h : c ∈ (String.Pos.Raw.extract s b e).toList) :
    c ∈ s.toList := by
  simp only [String.Pos.Raw.extract] at h
  split_ifs at h
  · simp at h
  · rw [String.toList_ofList] at h
    exact mem_of_mem_between h

/-- What a text is split into are parts of it. -/
theorem mem_splitOnAux {s sep piece : String} {j : String.Pos.Raw} {r : List String}
    (h : piece ∈ s.splitOnAux sep b i j r) :
    piece ∈ r ∨ ∃ b e, piece = String.Pos.Raw.extract s b e := by
  induction b, i, j, r using String.splitOnAux.induct s sep with
  | case1 b i j r ended =>
    rw [String.splitOnAux, if_pos ended, List.mem_reverse, List.mem_cons] at h
    exact h.symm.imp_right fun h => ⟨_, _, h⟩
  | case2 b i j r more same _ _ ended ih =>
    rw [String.splitOnAux, if_neg more, if_pos same, if_pos ended] at h
    rcases ih h with h | h
    · exact (List.mem_cons.mp h).symm.imp_right fun h => ⟨_, _, h⟩
    · exact Or.inr h
  | case3 b i j r more same _ _ goes ih =>
    rw [String.splitOnAux, if_neg more, if_pos same, if_neg goes] at h
    exact ih h
  | case4 b i j r more other ih =>
    rw [String.splitOnAux, if_neg more, if_neg other] at h
    exact ih h

theorem mem_of_mem_splitOn {s sep piece : String} (h : piece ∈ s.splitOn sep)
    (hc : c ∈ piece.toList) : c ∈ s.toList := by
  unfold String.splitOn at h
  split_ifs at h
  · obtain rfl := List.mem_singleton.mp h
    exact hc
  · rcases mem_splitOnAux h with h | ⟨_, _, rfl⟩
    · cases h
    · exact mem_of_mem_extract hc

/-- What stands between others comes from them, or is what they are separated by. -/
theorem mem_of_mem_intersperse {α : Type} {x sep : α} {l : List α} (h : x ∈ l.intersperse sep) :
    x = sep ∨ x ∈ l := by
  induction l using List.intersperse.induct with
  | case1 => exact Or.inr h
  | case2 a => exact Or.inr h
  | case3 a l hl ih =>
    obtain ⟨b, l, rfl⟩ := List.exists_cons_of_ne_nil hl
    rw [List.intersperse_cons_cons, List.mem_cons, List.mem_cons] at h
    rcases h with rfl | rfl | h
    · exact Or.inr List.mem_cons_self
    · exact Or.inl rfl
    · exact (ih h).imp_right (List.mem_cons_of_mem a)

theorem mem_of_mem_intercalate {sep : String} {l : List String}
    (h : c ∈ (sep.intercalate l).toList) : c ∈ sep.toList ∨ ∃ s ∈ l, c ∈ s.toList := by
  rw [String.toList_intercalate, List.intercalate, List.mem_flatten] at h
  obtain ⟨piece, hp, hc⟩ := h
  rcases mem_of_mem_intersperse hp with rfl | hp
  · exact Or.inl hc
  · obtain ⟨s, hs, rfl⟩ := List.mem_map.mp hp
    exact Or.inr ⟨s, hs, hc⟩

/-- A tidied path holds characters of the path, slashes and points. -/
theorem mem_tidyPath {path : String} (h : c ∈ (tidyPath path).toList) :
    c ∈ path.toList ∨ c = '/' ∨ c = '.' := by
  unfold tidyPath at h
  extract_lets root steps at h
  have slashes : c ∈ root.toList → c = '/' := by
    simp only [root]
    split_ifs <;> simp
  split_ifs at h
  · exact Or.inr (Or.inr (by simpa using h))
  · rw [String.toList_append, List.mem_append] at h
    rcases h with h | h
    · exact Or.inr (Or.inl (slashes h))
    · rcases mem_of_mem_intercalate h with h | ⟨step, hs, hc⟩
      · exact Or.inr (Or.inl (by simpa using h))
      · exact Or.inl (mem_of_mem_splitOn (List.mem_of_mem_filter hs) hc)

end OrderedGrammar.Command
