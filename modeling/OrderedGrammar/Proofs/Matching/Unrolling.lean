import OrderedGrammar.Proofs.Matching.Quantifiers
import OrderedGrammar.Proofs.Tree.Order

/-!
Repetitions of which the first round is written out. Rounds go on where the first of them stops, be
it empty or not (`loopStops_from`), so at least one match is one match and then any number of them
(`stops_unrolled`), and any number of matches is that or nothing (`stops_many_unrolled`). The tree
of a repetition and the one with its first round apart differ by the list node around the other
rounds, which leaves no trace among the nearest leaves and rule nodes (`Gives.unrolled`).
-/

namespace OrderedGrammar

/-- One match, and then any number of them. -/
def Validator.unrolled [Regex] (v : Validator) : Validator :=
  .sequence [v, .quantified v .zeroOrMore]

namespace Matching

open OrderedGrammar.Tree

section Unrolling

variable [Regex] [LawfulRegex] {g : Grammar} {text : Text} {v : Validator} {pos stop : Nat}
  {tag : String} {x : Stop}

/-! ### Where unrolled repetitions stop -/

theorem le_of_stops (h : Stops g text v pos (.ok (some stop))) : pos ≤ stop := by
  obtain ⟨t, given, rfl⟩ := (h.told "").gives_some
  exact given.covers.2.1

/-- Rounds come to what they come to from the end of the first round on. -/
theorem loopStops_from (first : Stops g text v pos (.ok (some stop))) :
    LoopStops g text v pos x ↔ LoopStops g text v stop x := by
  rcases Nat.eq_or_lt_of_le (le_of_stops first) with rfl | hlt
  · exact Iff.rfl
  · constructor
    · intro h
      cases h with
      | halt hv hle =>
        obtain rfl := Except.ok.inj (hv.unique first)
        exact absurd (hle stop rfl) (Nat.not_le.mpr hlt)
      | next hv _ hs =>
        cases hv.unique first
        exact hs
      | error hv => cases hv.unique first
    · exact .next first hlt

omit [LawfulRegex] in
theorem stops_many : Stops g text (.quantified v .zeroOrMore) pos x ↔ LoopStops g text v pos x := by
  constructor
  · intro h
    cases h with
    | many h => exact h
  · exact .many

omit [LawfulRegex] in
/-- One match and then any number of them break as the first does, or else come to what the rounds
after it come to. -/
theorem stops_first_and_rounds : Stops g text v.unrolled pos x ↔
    (∃ stop, Stops g text v pos (.ok (some stop)) ∧ LoopStops g text v stop x) ∨
      NoMatch x ∧ Stops g text v pos x := by
  rw [Validator.unrolled, stops_sequence, chainStops_cons]
  simp only [chainStops_single, stops_many]

/-- At least one match is one match and then any number of them. -/
theorem stops_unrolled :
    Stops g text (.quantified v .oneOrMore) pos x ↔ Stops g text v.unrolled pos x := by
  rw [stops_first_and_rounds]
  constructor
  · intro h
    cases h with
    | some first hs => exact Or.inl ⟨_, first, (loopStops_from first).mp hs⟩
    | someBroken first hx => exact Or.inr ⟨hx, first⟩
  · rintro (⟨stop, first, hs⟩ | ⟨hx, first⟩)
    · exact .some first ((loopStops_from first).mpr hs)
    · exact .someBroken first hx

/-- Any number of matches is nothing, or one match and then any number of them. -/
theorem stops_many_unrolled : Stops g text (.quantified v .zeroOrMore) pos x ↔
    Stops g text (.quantified v.unrolled .zeroOrOne) pos x := by
  have unrolled : Stops g text (.stacked [.zeroOrOne, .oneOrMore] v) pos x ↔
      Stops g text (.quantified v.unrolled .zeroOrOne) pos x :=
    ⟨Follows.quantified (fun _ _ => stops_unrolled.mp) .zeroOrOne pos x,
      Follows.quantified (fun _ _ => stops_unrolled.mpr) .zeroOrOne pos x⟩
  rw [← unrolled, stops_stacked (by simp), stops_many]
  simp [Unmet]

/-! ### Trees of unrolled repetitions -/

omit [LawfulRegex] in
/-- The tree of a first match and the tree of the matches after it make a list of two. -/
theorem gives_unrolled {t u : Tree} (first : Gives g text v pos tag (.ok (some t)))
    (others : Gives g text (.quantified v .zeroOrMore) t.stop tag (.ok (some u))) :
    Gives g text v.unrolled pos tag (.ok (some (listNode tag pos [t, u]))) := by
  refine .sequence rfl (linked_cons.mpr ⟨?_, linked_cons.mpr ⟨?_, linked_nil⟩⟩)
  · rintro _ ⟨⟩
    exact first
  · rintro _ ⟨⟩
    exact others

omit [Regex] [LawfulRegex] in
/-- Putting the trees after the first under a list node of their own changes neither where the list
ends nor what is nearest below it. -/
theorem listNode_grouped (t : Tree) (ts : List Tree) :
    (listNode tag pos (t :: ts)).stop = (listNode tag pos [t, listNode tag t.stop ts]).stop ∧
      (listNode tag pos (t :: ts)).nearest =
        (listNode tag pos [t, listNode tag t.stop ts]).nearest := by
  simp [listNode_eq, nearest, nearestAll, Tree.isRule, Tree.info]

/-- What at least one match gives is given with the first match apart too, up to a list node. -/
theorem Gives.unrolled {t : Tree}
    (h : Gives g text (.quantified v .oneOrMore) pos tag (.ok (some t))) :
    ∃ u, Gives g text v.unrolled pos tag (.ok (some u)) ∧
      t.stop = u.stop ∧ t.nearest = u.nearest := by
  cases h with
  | @many _ _ _ _ ts o ha chain grows last halts =>
    cases ts with
    | nil => simp at ha
    | cons first rest =>
      obtain ⟨matched, chain⟩ := linked_cons.mp chain
      obtain ⟨-, grows⟩ := linked_cons.mp grows
      rw [stopAfter_cons] at last halts
      have others : Gives g text (.quantified v .zeroOrMore) first.stop tag
          (.ok (some (listNode tag first.stop rest))) :=
        .many (Or.inl rfl) chain grows last halts
      exact ⟨_, gives_unrolled matched others, listNode_grouped first rest⟩
  | @someEmpty _ _ _ first matched empty =>
    -- where the first match is empty, no further one is listed
    obtain stays := Nat.le_antisymm empty matched.covers.2.1
    have others : Gives g text (.quantified v .zeroOrMore) first.stop tag
        (.ok (some (listNode tag first.stop []))) := by
      refine .many (Or.inl rfl) linked_nil linked_nil (o := some first) ?_ ?_
      · rw [stopAfter_nil, stays]
        exact matched
      · rintro _ ⟨⟩
        exact Nat.le_refl _
    exact ⟨_, gives_unrolled matched others, listNode_grouped first []⟩

/-! ### What evaluations of unrolled repetitions end with -/

omit [Regex] [LawfulRegex] in
/-- Outcomes that stop in the same place agree in all that holds of their trees. -/
theorem agree_of_stopOf {R : Tree → Tree → Prop} {o m : Outcome} (same : stopOf o = stopOf m)
    (trees : ∀ t u, o = .ok (some t) → m = .ok (some u) → t.stop = u.stop → R t u) :
    Agree (Option.Rel R) o m := by
  rcases o with e | _ | t
  · obtain rfl := stopOf_eq_error.mp same.symm
    exact .error e
  · obtain rfl := stopOf_eq_none.mp same.symm
    exact .ok .none
  · obtain ⟨u, rfl, stop⟩ := stopOf_eq_some same.symm
    exact .ok (.some (trees t u rfl rfl stop.symm))

/-- At least one match of a validator ends as one match and then any number of them: in the same
error or without end, in no match, or in trees that stop in the same place and have the same nearest
leaves and rule nodes. Any number of matches always matches, unless it ends in an error or does not
end, and stops where at most one match and then any number of them stops. -/
theorem repetition_unrolls (g : Grammar) (text : Text) (v : Validator) (pos : Nat) (tag : String) :
    (∃ o o', Ends g text (.quantified v .oneOrMore) pos tag o ∧
      Ends g text v.unrolled pos tag o' ∧
      Agree (Option.Rel fun t u => t.stop = u.stop ∧ t.nearest = u.nearest) o o') ∧
    ∃ m m', Ends g text (.quantified v .zeroOrMore) pos tag m ∧
      Ends g text (.quantified v.unrolled .zeroOrOne) pos tag m' ∧ m ≠ .ok none ∧
      Agree (Option.Rel fun t u => t.stop = u.stop) m m' := by
  constructor
  · obtain ⟨o, ho⟩ := exists_ends g text (.quantified v .oneOrMore) pos tag
    obtain ⟨o', ho'⟩ := exists_ends g text v.unrolled pos tag
    refine ⟨o, o', ho, ho', agree_of_stopOf (stopOf_eq_of_stops ho ho' fun _ => stops_unrolled) ?_⟩
    rintro t u rfl rfl -
    obtain ⟨n, hn⟩ := ho
    have given : Gives g text (.quantified v .oneOrMore) pos tag (.ok (some t)) :=
      gives_iff.mpr ⟨by simp, n, hn n (Nat.le_refl n)⟩
    obtain ⟨w, unrolled, same⟩ := given.unrolled
    cases (ends_of_gives unrolled).unique ho'
    exact same
  · obtain ⟨m, hm⟩ := exists_ends g text (.quantified v .zeroOrMore) pos tag
    obtain ⟨m', hm'⟩ := exists_ends g text (.quantified v.unrolled .zeroOrOne) pos tag
    refine ⟨m, m', hm, hm', ?_, agree_of_stopOf
      (stopOf_eq_of_stops hm hm' fun _ => stops_many_unrolled) fun _ _ _ _ stop => stop⟩
    rintro rfl
    have rounds := stops_many.mp ((stops_none_iff tag).mpr hm)
    rcases rounds.some_or_error with ⟨_, h⟩ | ⟨_, h⟩ <;> cases h

end Unrolling

/-- Two digits before a letter, with the first of them apart or not. -/
theorem two_digits_unrolled :
    ∃ t u, Ends ⟨"s", []⟩ (.ofString "12a")
        (.quantified (Points.one .digitCharacter) .oneOrMore) 0 "s" (.ok (some t)) ∧
      Ends ⟨"s", []⟩ (.ofString "12a") (Points.one .digitCharacter).unrolled 0 "s"
        (.ok (some u)) ∧
      t.stop = 2 ∧ t.stop = u.stop ∧ t.nearest = u.nearest := by
  have run : evaluate ⟨"s", []⟩ (.ofString "12a") 2
      (.quantified (Points.one .digitCharacter) .oneOrMore) 0 "s" =
        .ok (some (listNode "s" 0 [.text ⟨"s", false, 0, 1⟩ "1", .text ⟨"s", false, 1, 2⟩ "2"])) :=
    by rfl
  obtain ⟨⟨o, o', ho, ho', agree⟩, -⟩ :=
    repetition_unrolls ⟨"s", []⟩ (.ofString "12a") (Points.one .digitCharacter) 0 "s"
  obtain rfl := ho.unique (ends_of_evaluate run (by simp))
  cases agree with
  | ok found =>
    cases found with
    | some same => exact ⟨_, _, ho, ho', rfl, same⟩

end Matching

end OrderedGrammar
