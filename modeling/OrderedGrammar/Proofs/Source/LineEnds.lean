import Mathlib
import OrderedGrammar.Source.LineEnds

/-!
Line ends, written and read. A text without carriage returns is read back however its line feeds are
written (`unifyLineEnds_spell`). Line ends can as well be unified by two replacements one after the
other, of the pairs first (`replaceLineEnds_eq`), and a text that has been read stays as it is.
-/

namespace OrderedGrammar.Source

/-- The ways to write a line end. -/
def lineEnds : List (List Char) := [['\n'], ['\r', '\n'], ['\r']]

/-- The text with each line feed written as `mark`. -/
def spell (mark text : List Char) : List Char :=
  text.flatMap fun c => if c = '\n' then mark else [c]

variable {mark text s : List Char} {c : Char}

/-! ### Reading what was written -/

/-- A character that does not begin a pair is read by itself. -/
theorem unifyLineEnds_single (single : ∀ rest, c = '\r' → s ≠ '\n' :: rest) :
    unifyLineEnds (c :: s) = (if c = '\r' then '\n' else c) :: unifyLineEnds s := by
  by_cases hc : c = '\r'
  · subst hc
    rw [unifyLineEnds, if_pos rfl]
    exact fun rest => single rest rfl
  · rw [unifyLineEnds, if_neg hc]
    · exact fun rest same => absurd same hc
    · exact hc

theorem unifyLineEnds_cons (hc : c ≠ '\r') : unifyLineEnds (c :: s) = c :: unifyLineEnds s := by
  rw [unifyLineEnds_single fun rest same => absurd same hc, if_neg hc]

/-- A carriage return ends a line by itself if no line feed follows. -/
theorem unifyLineEnds_return (hs : '\n' ∉ s) :
    unifyLineEnds ('\r' :: s) = '\n' :: unifyLineEnds s := by
  refine unifyLineEnds_single fun rest _ feed => hs ?_
  rw [feed]
  exact List.mem_cons_self

theorem spell_cons : spell mark (c :: text) =
    (if c = '\n' then mark else [c]) ++ spell mark text :=
  List.flatMap_cons

/-- Where carriage returns end the lines there is no line feed. -/
theorem lineFeed_notMem_spell : '\n' ∉ spell ['\r'] text := by
  intro h
  obtain ⟨c, -, hc⟩ := List.mem_flatMap.mp h
  split_ifs at hc with feed
  · simp at hc
  · exact feed (List.mem_singleton.mp hc).symm

/-- However its line feeds are written, a text without carriage returns is read back. -/
theorem unifyLineEnds_spell (hmark : mark ∈ lineEnds) (plain : '\r' ∉ text) :
    unifyLineEnds (spell mark text) = text := by
  induction text with
  | nil => rfl
  | cons c text ih =>
    obtain ⟨hc, plain⟩ := not_or.mp (mt List.mem_cons.mpr plain)
    have rest := ih plain
    rw [spell_cons]
    by_cases feed : c = '\n'
    · subst feed
      simp only [lineEnds, List.mem_cons, List.not_mem_nil, or_false] at hmark
      obtain rfl | rfl | rfl := hmark
      · exact (unifyLineEnds_cons (by decide)).trans (congrArg _ rest)
      · exact congrArg ('\n' :: ·) rest
      · exact (unifyLineEnds_return lineFeed_notMem_spell).trans (congrArg _ rest)
    · rw [if_neg feed, List.singleton_append, unifyLineEnds_cons (Ne.symm hc), rest]

/-! ### Two replacements -/

/-- Replacing the pairs first, and then what is left, comes to the same. -/
theorem replaceLineEnds_eq (s : List Char) : replaceLineEnds s = unifyLineEnds s := by
  unfold replaceLineEnds replaceReturns
  fun_induction unifyLineEnds s with
  | case1 rest ih => simp [replacePairs, ih]
  | case2 rest single ih =>
    rw [replacePairs, List.map_cons, ih, if_pos rfl]
    exact fun more _ same => single more same
  | case3 c rest _ other ih =>
    rw [replacePairs, List.map_cons, ih, if_neg fun same => other same]
    exact fun more same => absurd same fun same => other same
  | case4 => rfl

/-- Unified line ends are left as they are. -/
theorem unifyLineEnds_idem (s : List Char) :
    unifyLineEnds (unifyLineEnds s) = unifyLineEnds s ∧
      replaceLineEnds (unifyLineEnds s) = unifyLineEnds s := by
  have kept := unifyLineEnds_eq_self (not_mem_unifyLineEnds s)
  exact ⟨kept, (replaceLineEnds_eq _).trans kept⟩

/-! ### Files -/

/-- Any text is read back from its bytes, with its line ends unified. -/
theorem decodeText?_toUTF8 (s : String) :
    decodeText? s.toUTF8 = some (String.ofList (unifyLineEnds s.toList)) := by
  have decoded : String.fromUTF8? s.toUTF8 = some s := dif_pos s.isValidUTF8
  rw [decodeText?, decoded]
  rfl

/-- A text is loaded from its bytes with its line ends unified. -/
theorem decodeText?_eq {s t : String} (ht : t.toList = unifyLineEnds s.toList) :
    decodeText? s.toUTF8 = some t := by
  rw [decodeText?_toUTF8, ← ht, String.ofList_toList]

/-- The text of a file holds no carriage return, and unifying its line ends once more, at once or by
two replacements, leaves it as it is. -/
theorem decodeText?_unified {bytes : ByteArray} {t : String} (h : decodeText? bytes = some t) :
    '\r' ∉ t.toList ∧ unifyLineEnds t.toList = t.toList ∧ replaceLineEnds t.toList = t.toList := by
  obtain ⟨s, -, rfl⟩ := Option.map_eq_some_iff.mp h
  rw [String.toList_ofList]
  exact ⟨not_mem_unifyLineEnds _, unifyLineEnds_idem _⟩

end OrderedGrammar.Source
