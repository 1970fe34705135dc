import Mathlib
import OrderedGrammar.Pattern.Literal
import OrderedGrammar.Pattern.Reader

/-!
Patterns of fixed texts. What `escape` writes is read back as the characters of the text one after
the other, each standing for itself, whatever the text (`read_escape`).
-/

namespace OrderedGrammar

namespace Pattern

/-! ### Steps that succeed -/

/-- The step gives the value and comes to this progress. -/
def Reads {α : Type} (m : Reading α) (p : Progress) (a : α) (p' : Progress) : Prop :=
  m.run p = .ok (a, p')

section Reads

variable {α β : Type} {p p' p'' : Progress}

theorem reads_pure (a : α) (p : Progress) : Reads (pure a) p a p := rfl

theorem reads_get (p : Progress) : Reads get p p p := rfl

theorem Reads.bind {m : Reading α} {f : α → Reading β} {a : α} {b : β} (h : Reads m p a p')
    (hf : Reads (f a) p' b p'') : Reads (m >>= f) p b p'' := by
  unfold Reads at *
  rw [StateT.run_bind, h]
  exact hf

end Reads

/-! ### Fixed texts -/

/-- Nothing special is in force: blanks are no layout, case counts, and the text is read forward. -/
structure Progress.Plain (p : Progress) : Prop where
  layout : p.skipsLayout = false
  case : p.flags.ignoreCase = false
  direction : p.direction = .forward

theorem Progress.Plain.rest {p : Progress} (h : p.Plain) (r : List Char) :
    Progress.Plain { p with rest := r } := ⟨h.layout, h.case, h.direction⟩

/-- A character that opens an atom, whatever stands before it. -/
def opensAtom (c : Char) : Bool := !"()|?*+\x7b".toList.contains c

/-- A character that stands for itself. -/
def itself (c : Char) : Expr := .one (.single c.toNat) false

section Escaped

open Reading

variable {p : Progress} {c : Char} {r : List Char} {fuel : Nat}

theorem reads_nextBare (h : p.rest = c :: r) : Reads nextBare p (some c) { p with rest := r } := by
  refine (reads_get p).bind ?_
  rw [h]
  rfl

/-- Without layout, looking for the next character drops nothing. -/
theorem reads_dropLayout (plain : p.Plain) : Reads (modify fun s : Progress =>
    { s with rest := if s.skipsLayout then dropLayout false s.rest else s.rest }) p () p := by
  change Except.ok ((), { p with rest := if p.skipsLayout then _ else p.rest }) = _
  rw [if_neg (by simp [plain.layout])]

theorem reads_next (plain : p.Plain) (h : p.rest = c :: r) :
    Reads next p (some c) { p with rest := r } :=
  (reads_dropLayout plain).bind (reads_nextBare h)

theorem reads_next_end (plain : p.Plain) (h : p.rest = []) : Reads next p none p := by
  refine (reads_dropLayout plain).bind ((reads_get p).bind ?_)
  rw [h]
  rfl

theorem reads_offset (p : Progress) : Reads offset p (p.length - p.rest.length) p := rfl

/-- A character that is neither a sign nor blank stands for itself. -/
theorem reads_atom_bare (plain : p.Plain) (hc : isSign c = false) :
    Reads (atom fuel c) p (itself c) p := by
  have other (d : Char) (hd : isSign d = true) : c ≠ d := by
    rintro rfl
    rw [hc] at hd
    cases hd
  refine (reads_get p).bind ?_
  simp only [other '\\' rfl, other '.' rfl, other '[' rfl, other '^' rfl, other '$' rfl, if_false]
  refine (reads_get p).bind ?_
  rw [plain.case]
  exact reads_pure _ _

/-- Signs and blanks are neither letters nor digits. -/
theorem not_alphanum_of_escaped (hc : (isSign c || Text.isBlank c) = true) :
    c.isAlpha = false ∧ c.isDigit = false := by
  rcases (Bool.or_eq_true _ _).mp hc with sign | blank
  · simp only [isSign, List.contains_iff_mem, String.reduceToList, List.mem_cons,
      List.not_mem_nil, or_false] at sign
    rcases sign with rfl | rfl | rfl | rfl | rfl | rfl | rfl | rfl | rfl | rfl | rfl | rfl | rfl |
      rfl | rfl | rfl | rfl | rfl <;> decide
  · have range : c.toNat ≤ 0x20 ∨ 0x85 ≤ c.toNat := by
      simp only [Text.isBlank, Bool.or_eq_true, Bool.and_eq_true, decide_eq_true_eq,
        beq_iff_eq] at blank
      omega
    simp [Char.isAlpha, Char.isUpper, Char.isLower, Char.isDigit, UInt32.le_iff_toNat_le]
    omega

theorem opensAtom_of_not_sign (hc : isSign c = false) : opensAtom c := by
  simp_all [isSign, opensAtom]

/-- A sign or a blank stands for itself behind a backslash. -/
theorem reads_atom_escaped (plain : p.Plain) (hc : isSign c || Text.isBlank c)
    (h : p.rest = c :: r) : Reads (atom fuel '\\') p (itself c) { p with rest := r } := by
  obtain ⟨alpha, digit⟩ := not_alphanum_of_escaped hc
  have letter (d : Char) (hd : d.isAlpha = true) : c ≠ d := by
    rintro rfl
    rw [alpha] at hd
    cases hd
  have escaped : Reads (Reading.escape false) p (Escape.code c.toNat) { p with rest := r } := by
    refine (reads_nextBare h).bind ?_
    simp only [letter 'x' rfl, letter 'u' rfl, letter 'U' rfl, letter 'p' rfl, letter 'P' rfl,
      letter 'g' rfl, letter 'L' rfl, letter 'R' rfl, alpha, digit, if_false, or_self, false_and,
      Bool.false_eq_true]
    exact reads_pure _ _
  refine (reads_get p).bind (escaped.bind ?_)
  rw [plain.case]
  exact reads_pure _ _

theorem reads_sequence_end {items : List Expr} {repeatable : Bool} (plain : p.Plain)
    (h : p.rest = []) :
    Reads (sequence (fuel + 1) items repeatable) p (Expr.sequence items.reverse) p := by
  refine (reads_get p).bind ((reads_offset p).bind ((reads_next_end plain h).bind ?_))
  rfl

/-- An atom joins the items. -/
theorem reads_sequence_atom {items : List Expr} {repeatable : Bool} {e last : Expr}
    {p' : Progress} (plain : p.Plain) (h : p.rest = c :: r) (hc : opensAtom c)
    (first : Reads (atom fuel c) { p with rest := r } e p')
    (others : Reads (sequence fuel (e :: items) true) p' last p'') :
    Reads (sequence (fuel + 1) items repeatable) p last p'' := by
  have other (d : Char) (hd : opensAtom d = false) : c ≠ d := by
    rintro rfl
    rw [hc] at hd
    cases hd
  refine (reads_get p).bind ((reads_offset p).bind ((reads_next plain h).bind ?_))
  simp only [other ')' rfl, other '|' rfl, other '(' rfl, or_self, if_false, repeatSign?,
    other '?' rfl, other '*' rfl, other '+' rfl, other '\x7b' rfl]
  exact (reads_pure _ _).bind (first.bind others)

/-- The characters of an escaped text join the items one after the other. -/
theorem reads_sequence_escape {cs : List Char} {items : List Expr} {repeatable : Bool}
    (plain : p.Plain) (h : p.rest = Pattern.escape cs) (hf : cs.length < fuel) :
    Reads (sequence fuel items repeatable) p
      (Expr.sequence (items.reverse ++ cs.map itself)) { p with rest := [] } := by
  induction cs generalizing p fuel items repeatable with
  | nil =>
    obtain ⟨fuel, rfl⟩ := Nat.exists_eq_succ_of_ne_zero (Nat.ne_of_gt hf)
    have ended : p.rest = [] := h
    rw [List.map_nil, List.append_nil, ← ended]
    exact reads_sequence_end plain ended
  | cons c cs ih =>
    obtain ⟨fuel, rfl⟩ := Nat.exists_eq_succ_of_ne_zero (Nat.ne_of_gt (Nat.zero_lt_of_lt hf))
    have others : Reads (sequence fuel (itself c :: items) true)
        { p with rest := Pattern.escape cs }
        (Expr.sequence ((itself c :: items).reverse ++ cs.map itself)) { p with rest := [] } :=
      ih (plain.rest _) rfl (Nat.lt_of_succ_lt_succ hf)
    simp only [List.reverse_cons, List.append_assoc, List.singleton_append] at others
    rw [List.map_cons]
    by_cases hc : isSign c || Text.isBlank c
    · have spelled : p.rest = '\\' :: c :: Pattern.escape cs := by
        rw [h, Pattern.escape, List.flatMap_cons, escapeChar, if_pos hc]
        rfl
      exact reads_sequence_atom plain spelled rfl
        (reads_atom_escaped (plain.rest _) hc rfl) others
    · have spelled : p.rest = c :: Pattern.escape cs := by
        rw [h, Pattern.escape, List.flatMap_cons, escapeChar, if_neg hc]
        rfl
      have sign : isSign c = false := by simp_all
      exact reads_sequence_atom plain spelled (opensAtom_of_not_sign sign)
        (reads_atom_bare (plain.rest _) sign) others

end Escaped

/-! ### Whole patterns -/

theorem Expr.branches_inLine_itself (cs : List Char) :
    (Expr.sequence.inLine (cs.map itself)).branches = [Expr.sequence.inLine (cs.map itself)] := by
  match cs with
  | [] => rfl
  | [_] => rfl
  | _ :: _ :: _ => rfl

theorem Expr.items_inLine_itself (cs : List Char) :
    (Expr.sequence.inLine (cs.map itself)).items = cs.map itself := by
  induction cs with
  | nil => rfl
  | cons c cs ih =>
    cases cs with
    | nil => rfl
    | cons d cs => exact congrArg (itself c :: ·) ih

theorem Expr.flatMap_items_itself (cs : List Char) :
    (cs.map itself).flatMap Expr.items = cs.map itself := by
  induction cs with
  | nil => rfl
  | cons c cs ih => exact congrArg (itself c :: ·) ih

/-- Nothing of a choice shows where there is one expression only. -/
theorem Expr.alternatives_itself (d : Direction) (cs : List Char) :
    Expr.alternatives d [Expr.sequence (cs.map itself)] = Expr.sequence (cs.map itself) := by
  unfold Expr.alternatives Expr.sequence
  rw [Expr.flatMap_items_itself, List.flatMap_singleton, Expr.branches_inLine_itself,
    List.map_singleton, Expr.items_inLine_itself]
  simp only [Expr.flatMap_items_itself]

theorem length_le_escape (cs : List Char) : cs.length ≤ (escape cs).length := by
  induction cs with
  | nil => exact Nat.le_refl _
  | cons c cs ih =>
    have here : 1 ≤ (escapeChar c).length := by
      unfold escapeChar
      split_ifs <;> simp
    rw [escape, List.flatMap_cons, List.length_append, List.length_cons, Nat.add_comm]
    exact Nat.add_le_add here ih

theorem reads_branches_escape {p : Progress} {cs : List Char} {fuel : Nat} (plain : p.Plain)
    (h : p.rest = escape cs) (hf : cs.length < fuel) :
    Reads (Reading.branches (fuel + 1) []) p (Expr.sequence (cs.map itself))
      { p with rest := [] } := by
  have noBar : Reads (Reading.accept ['|']) { p with rest := [] } false { p with rest := [] } := by
    simp [Reads, Reading.accept, Reading.afterAll?, plain.layout]
    rfl
  refine (reads_sequence_escape plain h hf).bind (noBar.bind ((reads_get _).bind ?_))
  rw [List.reverse_nil, List.nil_append, List.reverse_singleton, Expr.alternatives_itself]
  exact reads_pure _ _

/-- What `escape` writes is read as the characters one after the other. -/
theorem read_escape (cs : List Char) :
    read (escape cs) {} = .ok ⟨Expr.sequence (cs.map itself), 0, []⟩ := by
  have plain : (Progress.start (escape cs) {}).Plain := ⟨rfl, rfl, rfl⟩
  have enough : cs.length < 8 * (escape cs).length + 7 := by
    have := length_le_escape cs
    omega
  have whole : Reads Reading.whole (Progress.start (escape cs) {})
      ⟨Expr.sequence (cs.map itself), 0, []⟩ { Progress.start (escape cs) {} with rest := [] } :=
    (reads_get _).bind ((reads_branches_escape plain rfl enough).bind
      ((reads_get _).bind (reads_pure _ _)))
  rw [read, whole]
  rfl

end Pattern

end OrderedGrammar
