import OrderedGrammar.Proofs.Matching.Nesting
import OrderedGrammar.Proofs.Pattern.Lawful

/-!
Evaluations end if no rule calls itself on its left. An evaluation that nests another one without
moving on in the text is about a larger validator, or enters a rule of higher rank. A nested
evaluation fits into one level less than the one around it (`Fits`): the levels are counted by the
characters left, then by the rank of the rules that may be called on the left, then by the height of
the validator.
-/

namespace OrderedGrammar.Matching

section Lawful

variable [Regex] {g : Grammar} {text : Text}

/-! ### Levels by the characters left -/

/-- An evaluation at an offset has levels enough. All rules that it calls on its left are below the
rank, and each character left has levels enough for all rules. -/
structure Fits (g : Grammar) (text : Text) (top rank depth : Nat) (v : Validator) (pos : Nat) :
    Prop where
  low : v.height ≤ top
  calls : ∀ name ∈ g.ruleNames, g.LeftRef v name → g.rank g.LeftCalls name < rank
  room : (text.size - pos) * levels top (g.ruleNames.length + 1) top + levels top rank v.height ≤
    depth

namespace Fits

variable {top rank depth pos : Nat} {v : Validator}

theorem inner {arity : Arity} (h : Fits g text top rank (depth + 1) (.quantified v arity) pos) :
    Fits g text top rank depth v pos := by
  obtain ⟨low, calls, room⟩ := h
  rw [Validator.height] at low
  simp only [levels, Validator.height] at room
  exact ⟨by omega, fun name hn hv => calls name hn (.quantified hv),
    by simp only [levels]; omega⟩

/-- The item of a sequence before which all items are nullable. -/
theorem item {items : List Validator} {i : Nat}
    (h : Fits g text top rank (depth + 1) (.sequence items) pos) (hi : items[i]? = some v)
    (nullable : ∀ w ∈ items.take i, g.Nullable w) : Fits g text top rank depth v pos := by
  obtain ⟨low, calls, room⟩ := h
  have hv := Validator.height_le_heightAll (List.mem_of_getElem? hi)
  rw [Validator.height] at low
  simp only [levels, Validator.height] at room
  refine ⟨by omega, fun name hn href => calls name hn ?_, by simp only [levels]; omega⟩
  obtain ⟨hlt, hget⟩ := List.getElem?_eq_some_iff.mp hi
  have split : items = items.take i ++ v :: items.drop (i + 1) := by
    rw [← hget, ← List.drop_eq_getElem_cons hlt, List.take_append_drop]
  rw [split]
  exact .sequence nullable href

/-- An alternative of a rule calls rules of lower rank only. -/
theorem alternative (acyclic : g.NoLeftRecursion) (hg : g.height ≤ top) {name : String}
    {alternatives : List Validator} (h : Fits g text top rank (depth + 1) (.ref name) pos)
    (hr : g.rule? name = some alternatives) (hv : v ∈ alternatives) :
    Fits g text top (g.rank g.LeftCalls name) depth v pos := by
  obtain ⟨-, calls, room⟩ := h
  have hrank := calls name (Grammar.mem_ruleNames_of_rule? hr) .ref
  have low : v.height ≤ top := (Grammar.height_le_of_rule? hr hv).trans hg
  refine ⟨low, fun callee hn href => ?_, ?_⟩
  · exact Grammar.rank_lt acyclic ⟨alternatives, v, hr, hv, href⟩ hn
  · have one : levels top rank 1 ≥ 1 := Nat.le_add_left _ _
    rw [Validator.height] at room
    have := levels_alternative hrank low (Nat.le_of_eq (Nat.sub_add_cancel one).symm)
    omega

/-- Farther on in the text there are levels enough for any validator. -/
theorem later (h : Fits g text top rank (depth + 1) v pos) {w : Validator} {p : Nat}
    (hw : w.height ≤ top) (hlt : pos < p) (hp : p ≤ text.size) :
    Fits g text top (g.ruleNames.length + 1) depth w p := by
  obtain ⟨-, -, room⟩ := h
  refine ⟨hw, fun name _ _ => Nat.lt_succ_of_le (Grammar.rank_le g name), ?_⟩
  have hv := v.height_pos
  have hmul := Nat.mul_le_mul_right (levels top (g.ruleNames.length + 1) top)
    (show text.size - p + 1 ≤ text.size - pos by omega)
  rw [Nat.succ_mul] at hmul
  have hpay : levels top (g.ruleNames.length + 1) w.height ≤
      levels top (g.ruleNames.length + 1) top := Nat.add_le_add_left hw _
  have : v.height ≤ levels top rank v.height := Nat.le_add_left _ _
  omega

end Fits

/-! ### Evaluations end -/

/-- Levels counted by the characters left are never used up. -/
theorem supplies_fits (acyclic : g.NoLeftRecursion) {top : Nat} (hg : g.height ≤ top) :
    Supplies g text fun depth v pos => ∃ rank, Fits g text top rank depth v pos where
  positive := by
    rintro v pos ⟨rank, h⟩
    have := v.height_pos
    have := h.room
    unfold levels at this
    omega
  alternative := fun ⟨_, h⟩ hr hv => ⟨_, h.alternative acyclic hg hr hv⟩
  inner := fun ⟨rank, h⟩ => ⟨rank, h.inner⟩
  item := fun ⟨rank, h⟩ hi nullable => ⟨rank, h.item hi nullable⟩
  innerLater := fun ⟨_, h⟩ hlt hp => ⟨_, h.later h.inner.low hlt hp⟩
  itemLater := fun ⟨_, h⟩ hv hlt hp => by
    have low := h.low
    rw [Validator.height] at low
    exact ⟨_, h.later ((Validator.height_le_heightAll hv).trans (by omega)) hlt hp⟩

/-- Validators of the four kinds go wrong only at the name of a rule that is not declared. -/
theorem Gives.error_of_proper {v : Validator} {pos : Nat} {tag : String} {o : Outcome}
    (h : Gives g text v pos tag o) (hg : g.Proper) : v.Proper → ∀ e, o = .error e →
      ∃ name, e = .undefinedRule name ∧ g.rule? name = none := by
  induction h with
  | undefined h =>
    rintro - _ ⟨⟩
    exact ⟨_, rfl, h⟩
  | chosenError h hi _ _ ih _ =>
    rintro - _ ⟨⟩
    exact ih (hg _ _ h _ (List.mem_of_getElem? hi)) _ rfl
  | sequenceBroken item _ _ _ ih =>
    rintro ⟨⟩ e he
    rename_i items
    exact ih (items _ (List.mem_of_getElem? item)) e he
  | onceError _ ih =>
    rintro ⟨⟩ _ ⟨⟩
    rename_i inner
    exact ih inner _ rfl
  | manyError _ _ _ _ _ ih =>
    rintro ⟨⟩ _ ⟨⟩
    rename_i inner
    exact ih inner _ rfl
  | foreign => rintro ⟨⟩
  | _ => rintro - _ ⟨⟩

/-- If no rule calls itself on its left, the evaluation of a validator nests in proportion to the
length of the text at most: within so many levels it ends, in the same way however many more there
are. A validator of the four kinds ends with a tree, with no match, or at an undeclared rule. -/
theorem evaluation_ends [LawfulRegex] (acyclic : g.NoLeftRecursion) (v : Validator) :
    ∃ K, ∀ (text : Text) (pos : Nat) (tag : String), ∃ o : Outcome,
      (∀ depth, K * (text.size + 1) ≤ depth → evaluate g text depth v pos tag = o) ∧
      o ≠ .error .depthExceeded ∧
      (g.Proper → v.Proper →
        (∃ r, o = .ok r) ∨ ∃ name, o = .error (.undefinedRule name) ∧ g.rule? name = none) := by
  let top := max g.height v.height
  let K := levels top (g.ruleNames.length + 1) top
  refine ⟨K, fun text pos tag => ?_⟩
  have fits : Fits g text top (g.ruleNames.length + 1) (K * (text.size + 1)) v pos := by
    refine ⟨Nat.le_max_right _ _, fun name _ _ => Nat.lt_succ_of_le (Grammar.rank_le g name), ?_⟩
    rw [Nat.mul_comm K (text.size + 1), Nat.succ_mul]
    refine Nat.add_le_add (Nat.mul_le_mul_right _ (Nat.sub_le _ _)) ?_
    exact Nat.add_le_add_left (Nat.le_max_right _ _) _
  have ends : evaluate g text (K * (text.size + 1)) v pos tag ≠ .error .depthExceeded :=
    (supplies_fits acyclic (Nat.le_max_left _ _)).ends ⟨_, fits⟩
  refine ⟨_, fun depth hd => evaluate_mono rfl ends hd, ends, fun hg hv => ?_⟩
  cases ho : evaluate g text (K * (text.size + 1)) v pos tag with
  | ok r => exact Or.inl ⟨r, rfl⟩
  | error e =>
    have given := gives_iff.mpr ⟨ends, _, rfl⟩
    obtain ⟨name, rfl, hn⟩ := given.error_of_proper hg hv e ho
    exact Or.inr ⟨name, rfl, hn⟩

end Lawful

/-- Minus signs before digits. The rule refers to itself, but only after a sign. -/
def signed : Grammar :=
  ⟨"signed", [("signed", [
    .sequence [Points.one .minusSign, .ref "signed"],
    .quantified (Points.one .digitCharacter) .zeroOrMore])]⟩

theorem not_nullable_minusSign : ¬ signed.Nullable (Points.one .minusSign) := by
  intro h
  cases h with
  | terminal h =>
    obtain ⟨c, -, -, taken⟩ := (Points.LawfulSymbols.matched?_iff _ _ _ _).mp h
    simpa using congrArg String.length taken

theorem signed_noLeftRecursion : signed.NoLeftRecursion := by
  have none : ∀ caller callee, ¬ signed.LeftCalls caller callee := by
    rintro caller callee ⟨alternatives, v, hr, hv, href⟩
    obtain ⟨rfl, rfl⟩ : caller = "signed" ∧ alternatives = _ := by
      simpa [signed] using Grammar.mem_rules_of_rule? hr
    rcases List.mem_pair.mp hv with rfl | rfl
    · generalize hitems : [Points.one .minusSign, .ref "signed"] = items at href
      cases href with
      | @sequence before w after _ nullable hw =>
        cases before with
        | nil => cases hitems; cases hw
        | cons x before =>
          obtain ⟨rfl, -⟩ := List.cons.inj hitems
          exact not_nullable_minusSign (nullable _ (List.mem_cons_self ..))
    · rcases href with _ | ⟨⟨⟩⟩
  intro name h
  obtain ⟨callee, h, -⟩ := Relation.TransGen.head'_iff.mp h
  exact none _ _ h

theorem signed_evaluation_ends : signed.NoLeftRecursion ∧
    ∃ K, ∀ (text : Text) (pos : Nat) (tag : String), ∃ o : Outcome,
      (∀ depth, K * (text.size + 1) ≤ depth →
        evaluate signed text depth (.ref "signed") pos tag = o) ∧
      o ≠ .error .depthExceeded ∧
      (signed.Proper → (Validator.ref "signed").Proper →
        (∃ r, o = .ok r) ∨
          ∃ name, o = .error (.undefinedRule name) ∧ signed.rule? name = none) :=
  ⟨signed_noLeftRecursion, evaluation_ends signed_noLeftRecursion (.ref "signed")⟩

end OrderedGrammar.Matching
