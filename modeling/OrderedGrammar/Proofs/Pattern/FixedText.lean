import OrderedGrammar.Proofs.Pattern.Escaped
import OrderedGrammar.Proofs.Pattern.OneCharacter
import OrderedGrammar.Proofs.Text.Slices

/-!
Where the patterns of fixed texts match. The pattern of a text takes its characters one after the
other, so it matches where the text occurs, and nowhere else (`matchAt_itself`).
-/

namespace OrderedGrammar

namespace Pattern

/-! ### Characters one after the other -/

theorem contains_single {c d : Char} : (CharSet.single c.toNat).contains d ↔ d = c := by
  simp only [CharSet.single, CharSet.contains, Bool.and_eq_true, decide_eq_true_eq]
  constructor
  · rintro ⟨h, h'⟩
    exact Char.toNat_inj.mp (Nat.le_antisymm h' h)
  · rintro rfl
    exact ⟨Nat.le_refl _, Nat.le_refl _⟩

/-- A character that stands for itself is tried at a place that it does not have to be told. -/
theorem run_itself (g : Setting) (c : Char) (site : Site) (s : State) (k : State → Search) :
    (itself c).run g site .forward s k =
      if g.text[s.offset]? = some c then k { s with offset := s.offset + 1 } else .nothing := by
  rw [itself, run_one]
  cases g.text[s.offset]? with
  | none => simp
  | some d => simp only [contains_single, Option.some.injEq]

/-- The first character is tried, and then the others. -/
theorem run_inLine_cons (g : Setting) (c : Char) (cs : List Char) (site : Site) (s : State)
    (k : State → Search) : ∃ site' site'',
      (Expr.sequence.inLine ((c :: cs).map itself)).run g site .forward s k =
        (itself c).run g site' .forward s fun s' =>
          (Expr.sequence.inLine (cs.map itself)).run g site'' .forward s' k := by
  cases cs with
  | nil => exact ⟨site, site, rfl⟩
  | cons d cs =>
    refine ⟨site.part 0 ?_, site.part 1 false, ?_⟩
    · exact (Expr.sequence.inLine ((d :: cs).map itself)).refersBack
    · rfl

/-- Characters in line are found where the text goes on with them, and behind them the search goes
on. -/
theorem run_inLine_itself (g : Setting) (cs : List Char) (site : Site) (s : State)
    (k : State → Search) :
    (Expr.sequence.inLine (cs.map itself)).run g site .forward s k =
      if cs <+: g.text.toList.drop s.offset then k { s with offset := s.offset + cs.length }
      else .nothing := by
  induction cs generalizing site s with
  | nil => simp [Expr.sequence.inLine, Expr.run]
  | cons c cs ih =>
    obtain ⟨site', site'', first⟩ := run_inLine_cons g c cs site s k
    rw [first, run_itself]
    simp only [ih, Text.cons_prefix_drop, List.length_cons, ite_and, Nat.add_assoc, Nat.add_comm 1]

theorem sequence_itself (cs : List Char) :
    Expr.sequence (cs.map itself) = Expr.sequence.inLine (cs.map itself) := by
  rw [Expr.sequence, Expr.flatMap_items_itself]

/-! ### Whole patterns -/

/-- Every match of a text begins with its first character. -/
theorem openingSet?_inLine (c : Char) (cs : List Char) :
    (Expr.sequence.inLine ((c :: cs).map itself)).openingSet? =
      some (.single c.toNat, false) := by
  have opens : (Expr.sequence.inLine ((c :: cs).map itself)).opening? =
      some ⟨[(.single c.toNat, false)], false⟩ := by
    have first : (itself c).opening? = some ⟨[(.single c.toNat, false)], false⟩ := by
      simp [itself, Expr.opening?, CharSet.single, CharSet.isRange]
    cases cs with
    | nil => exact first
    | cons d cs =>
      change (Expr.cat (itself c) (Expr.sequence.inLine ((d :: cs).map itself))).opening? = _
      rw [Expr.opening?, first]
      rfl
  have whole : CharSet.join [CharSet.single c.toNat] = .single c.toNat := rfl
  have known : Expr.lacksOne (.single c.toNat) = false := rfl
  have other : CharSet.single c.toNat ≠ .all := by rintro ⟨⟩
  unfold Expr.openingSet?
  rw [opens, Option.bind_eq_bind, Option.bind_some, List.map_singleton, whole]
  simp [known, other]

/-- The pattern of a text matches where the text occurs, and takes it. -/
theorem matchAt_itself {cs : List Char} (hne : cs ≠ []) (text : Text) (offset : Nat) :
    Pattern.matchAt ⟨Expr.sequence (cs.map itself), 0, []⟩ text offset =
      if cs <+: text.toList.drop offset then some (offset + cs.length) else none := by
  obtain ⟨c, cs, rfl⟩ := List.exists_cons_of_ne_nil hne
  have opens : (Expr.sequence.inLine ((c :: cs).map itself)).mayOpenAt text offset =
      text[offset]?.any (CharSet.single c.toNat).contains := by
    rw [Expr.mayOpenAt, openingSet?_inLine]
    rfl
  unfold Pattern.matchAt
  simp only [sequence_itself, run_inLine_itself, opens]
  by_cases h : c :: cs <+: text.toList.drop offset
  · have first := (Text.cons_prefix_drop.mp h).1
    simp [h, first, contains_single.mpr, StateT.run, pure, StateT.pure]
  · simp [h, Search.nothing, StateT.run, pure, StateT.pure]

end Pattern

end OrderedGrammar
