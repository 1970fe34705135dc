import OrderedGrammar.Points.Grammar
import OrderedGrammar.Proofs.Matching.Agreement
import OrderedGrammar.Proofs.Pattern.Lawful

/-!
Quantifiers on quantifiers. A repetition that is over takes nothing more where it stopped
(`LoopStops.rests`), so the rounds of a quantified validator come to what the rounds of the
validator itself come to, whatever the quantifier (`loopStops_quantified`). A stack of quantifiers,
one of which repeats, therefore stops where the repetition of the innermost validator stops, unless
all of them ask for a match and there is none (`stops_stacked`).
-/

namespace OrderedGrammar

/-- Quantifiers on top of one another, the first one outermost. -/
def Validator.stacked [Regex] (arities : List Arity) (v : Validator) : Validator :=
  arities.foldr (fun arity inner => .quantified inner arity) v

namespace Matching

section Collapse

variable [Regex] {g : Grammar} {text : Text} {v : Validator} {arity : Arity}
  {arities : List Arity} {pos : Nat} {x : Stop}

/-! ### Rounds that are over -/

/-- A repetition stops somewhere, or it ends in an error. -/
theorem LoopStops.some_or_error (h : LoopStops g text v pos x) :
    (∃ stop, x = .ok (some stop)) ∨ ∃ e, x = .error e := by
  refine h.rounds_induction (P := fun _ x => (∃ stop, x = .ok (some stop)) ∨ ∃ e, x = .error e)
    ?_ ?_ ?_
  · exact fun _ _ => Or.inl ⟨_, rfl⟩
  · exact fun _ _ _ ih => ih
  · exact fun _ => Or.inr ⟨_, rfl⟩

/-- Where the rounds of a repetition are over, there is none. -/
theorem LoopStops.rests {stop : Nat} (h : LoopStops g text v pos (.ok (some stop))) :
    pos ≤ stop ∧ LoopStops g text v stop (.ok (some stop)) := by
  refine h.rounds_induction (P := fun pos x => ∀ stop, x = .ok (some stop) →
    pos ≤ stop ∧ LoopStops g text v stop (.ok (some stop))) ?_ ?_ ?_ stop rfl
  · rintro pos o hv hle _ ⟨⟩
    exact ⟨Nat.le_refl pos, .halt hv hle⟩
  · intro pos next x _ hlt _ ih stop hx
    obtain ⟨hle, rests⟩ := ih stop hx
    exact ⟨Nat.le_trans (Nat.le_of_lt hlt) hle, rests⟩
  · rintro pos e _ _ ⟨⟩

theorem LoopStops.unique [LawfulRegex] {y : Stop} (h : LoopStops g text v pos x)
    (h' : LoopStops g text v pos y) : x = y :=
  (Stops.many h).unique (.many h')

/-- Where the validator fails, its rounds are over. -/
theorem LoopStops.of_none (h : Stops g text v pos (.ok none)) :
    LoopStops g text v pos (.ok (some pos)) :=
  .halt h (by simp)

/-- Where the validator stops at once, its rounds are over. -/
theorem LoopStops.of_empty (h : Stops g text v pos (.ok (some pos))) :
    LoopStops g text v pos (.ok (some pos)) := by
  refine .halt h ?_
  rintro _ ⟨⟩
  exact Nat.le_refl pos

/-! ### One quantifier that repeats -/

variable [LawfulRegex]

/-- A repetition comes to what its rounds come to, unless it asks for a match and there is none. -/
theorem stops_repeated (repeats : arity ≠ .zeroOrOne) :
    Stops g text (.quantified v arity) pos x ↔
      (arity = .oneOrMore ∧ Stops g text v pos (.ok none)) ∧ x = .ok none ∨
        ¬ (arity = .oneOrMore ∧ Stops g text v pos (.ok none)) ∧ LoopStops g text v pos x := by
  cases arity with
  | zeroOrOne => exact absurd rfl repeats
  | zeroOrMore =>
    simp only [reduceCtorEq, false_and, false_or, not_false_eq_true, true_and]
    constructor
    · intro h
      cases h with
      | many h => exact h
    · exact .many
  | oneOrMore =>
    simp only [true_and]
    constructor
    · intro h
      cases h with
      | some h hs =>
        refine Or.inr ⟨fun failed => ?_, hs⟩
        cases h.unique failed
      | someBroken h hx =>
        obtain ⟨b, rfl⟩ := hx.exists_broken
        cases b with
        | none => exact Or.inl ⟨h, rfl⟩
        | some e =>
          refine Or.inr ⟨fun failed => ?_, LoopStops.error h⟩
          cases h.unique failed
    · rintro (⟨failed, rfl⟩ | ⟨matched, rounds⟩)
      · exact .someBroken failed (noMatch_broken none)
      · cases rounds with
        | @halt _ _ o h hle =>
          cases o with
          | none => exact absurd h matched
          | some stop => exact .some h (.halt h hle)
        | next h hlt hs => exact .some h (.next h hlt hs)
        | error h => exact .someBroken h (noMatch_broken (some _))

/-! ### Rounds of a quantified validator -/

omit [LawfulRegex] in
/-- Rounds of which each takes something or nothing are the rounds of the validator. -/
theorem loopStops_opt : LoopStops g text (.quantified v .zeroOrOne) pos x ↔
    LoopStops g text v pos x := by
  constructor
  · intro h
    refine h.rounds_induction ?_ ?_ ?_
    · intro pos o hw hle
      cases hw with
      | once hv => exact .halt hv hle
      | noOnce hv => exact .of_none hv
    · intro pos stop x hw hlt _ ih
      cases hw with
      | once hv => exact .next hv hlt ih
      | noOnce _ => exact absurd hlt (Nat.lt_irrefl pos)
    · intro pos e hw
      cases hw with
      | onceError hv => exact .error hv
  · intro h
    refine h.rounds_induction ?_ ?_ ?_
    · intro pos o hv hle
      cases o with
      | none => exact .of_empty (.noOnce hv)
      | some stop => exact .halt (.once hv) hle
    · exact fun hv hlt _ ih => .next (.once hv) hlt ih
    · exact fun hv => .error (.onceError hv)

/-- Where the rounds of a validator are over, those of its repetition are. -/
theorem rests_repeated (repeats : arity ≠ .zeroOrOne)
    (h : LoopStops g text v pos (.ok (some pos))) :
    LoopStops g text (.quantified v arity) pos (.ok (some pos)) := by
  by_cases failed : arity = .oneOrMore ∧ Stops g text v pos (.ok none)
  · exact .of_none ((stops_repeated repeats).mpr (Or.inl ⟨failed, rfl⟩))
  · exact .of_empty ((stops_repeated repeats).mpr (Or.inr ⟨failed, h⟩))

/-- Rounds of a repetition are one that takes all, and none after it. -/
theorem loopStops_repeated (repeats : arity ≠ .zeroOrOne) :
    LoopStops g text (.quantified v arity) pos x ↔ LoopStops g text v pos x := by
  constructor
  · intro h
    refine h.rounds_induction ?_ ?_ ?_
    · intro pos o hw hle
      rcases (stops_repeated repeats).mp hw with ⟨⟨-, failed⟩, -⟩ | ⟨-, rounds⟩
      · exact .of_none failed
      · -- they stop where they begin
        rcases rounds.some_or_error with ⟨stop, ho⟩ | ⟨e, ho⟩
        · obtain rfl := Except.ok.inj ho
          obtain rfl := Nat.le_antisymm (hle stop rfl) rounds.rests.1
          exact rounds
        · cases ho
    · intro pos stop x hw _ _ ih
      rcases (stops_repeated repeats).mp hw with ⟨-, ho⟩ | ⟨-, rounds⟩
      · cases ho
      · rwa [ih.unique rounds.rests.2]
    · intro pos e hw
      rcases (stops_repeated repeats).mp hw with ⟨-, ho⟩ | ⟨-, rounds⟩
      · cases ho
      · exact rounds
  · intro h
    by_cases failed : arity = .oneOrMore ∧ Stops g text v pos (.ok none)
    · obtain rfl := h.unique (.of_none failed.2)
      exact rests_repeated repeats h
    · have hw := (stops_repeated repeats).mpr (Or.inr ⟨failed, h⟩)
      rcases h.some_or_error with ⟨stop, rfl⟩ | ⟨e, rfl⟩
      · obtain ⟨hle, rests⟩ := h.rests
        rcases Nat.eq_or_lt_of_le hle with rfl | hlt
        · exact .of_empty hw
        · exact .next hw hlt (rests_repeated repeats rests)
      · exact .error hw

/-- Quantifying a validator does not change what its rounds come to. -/
theorem loopStops_quantified :
    LoopStops g text (.quantified v arity) pos x ↔ LoopStops g text v pos x := by
  by_cases repeats : arity = .zeroOrOne
  · subst repeats
    exact loopStops_opt
  · exact loopStops_repeated repeats

/-! ### Stacks of quantifiers -/

theorem loopStops_stacked :
    LoopStops g text (.stacked arities v) pos x ↔ LoopStops g text v pos x := by
  induction arities with
  | nil => exact Iff.rfl
  | cons arity rest ih => exact loopStops_quantified.trans ih

/-- All quantifiers ask for a match, and there is none. -/
def Unmet (g : Grammar) (text : Text) (arities : List Arity) (v : Validator) (pos : Nat) : Prop :=
  (∀ arity ∈ arities, arity = .oneOrMore) ∧ Stops g text v pos (.ok none)

theorem stops_stacked_none :
    Stops g text (.stacked arities v) pos (.ok none) ↔ Unmet g text arities v pos := by
  induction arities with
  | nil => simp [Unmet, Validator.stacked]
  | cons arity rest ih =>
    by_cases repeats : arity = .zeroOrOne
    · subst repeats
      refine iff_of_false (fun h => ?_) (fun h => ?_)
      · cases h
      · simpa using h.1
    · change Stops g text (.quantified (.stacked rest v) arity) pos (.ok none) ↔ _
      rw [stops_repeated repeats, ih]
      have goesOn : ¬ LoopStops g text (.stacked rest v) pos (.ok none) := by
        intro h
        rcases h.some_or_error with ⟨_, h⟩ | ⟨_, h⟩ <;> cases h
      simp [goesOn, Unmet, and_assoc]

/-- A stack of quantifiers comes to what the rounds of the innermost validator come to, if one of
them repeats, unless all of them ask for a match and there is none. -/
theorem stops_stacked (repeats : ∃ arity ∈ arities, arity ≠ .zeroOrOne) :
    Stops g text (.stacked arities v) pos x ↔
      Unmet g text arities v pos ∧ x = .ok none ∨
        ¬ Unmet g text arities v pos ∧ LoopStops g text v pos x := by
  induction arities generalizing x with
  | nil => simp at repeats
  | cons arity rest ih =>
    change Stops g text (.quantified (.stacked rest v) arity) pos x ↔ _
    by_cases once : arity = .zeroOrOne
    · subst once
      have below : ∃ arity ∈ rest, arity ≠ .zeroOrOne := by simpa using repeats
      have met : ¬ Unmet g text (.zeroOrOne :: rest) v pos := by simp [Unmet]
      simp only [met, false_and, false_or, not_false_eq_true, true_and]
      constructor
      · intro h
        cases h with
        | once h =>
          rcases (ih below).mp h with ⟨-, hx⟩ | ⟨-, rounds⟩
          · cases hx
          · exact rounds
        | noOnce h => exact .of_none (stops_stacked_none.mp h).2
        | onceError h =>
          rcases (ih below).mp h with ⟨-, hx⟩ | ⟨-, rounds⟩
          · cases hx
          · exact rounds
      · intro rounds
        by_cases unmet : Unmet g text rest v pos
        · obtain rfl := rounds.unique (.of_none unmet.2)
          exact .noOnce (stops_stacked_none.mpr unmet)
        · have h := (ih below).mpr (Or.inr ⟨unmet, rounds⟩)
          rcases rounds.some_or_error with ⟨stop, rfl⟩ | ⟨e, rfl⟩
          · exact .once h
          · exact .onceError h
    · rw [stops_repeated once, stops_stacked_none, loopStops_stacked]
      have unmet : Unmet g text (arity :: rest) v pos ↔
          arity = .oneOrMore ∧ Unmet g text rest v pos := by
        simp [Unmet, and_assoc]
      rw [unmet]

/-! ### What evaluations of stacks end with -/

section Ends

variable {tag : String} {o m : Outcome}

/-- A validator stops where its evaluation does, if that comes to an end. -/
theorem stops_iff_of_ends (h : Ends g text v pos tag o) :
    Stops g text v pos x ↔ x ≠ .error .depthExceeded ∧ stopOf o = x := by
  rw [stops_iff tag]
  refine and_congr_right fun ended => ⟨?_, ?_⟩
  · rintro ⟨depth, rfl⟩
    have given : evaluate g text depth v pos tag ≠ .error .depthExceeded := by
      intro he
      rw [he] at ended
      exact ended rfl
    rw [h.unique (ends_of_evaluate rfl given)]
  · rintro rfl
    obtain ⟨n, hn⟩ := h
    exact ⟨n, by rw [hn n (Nat.le_refl n)]⟩

omit [Regex] [LawfulRegex] in
theorem stopOf_eq_error {e : EvalError} : stopOf o = .error e ↔ o = .error e := by
  refine ⟨stopOf_eq_broken (b := some e), ?_⟩
  rintro rfl
  rfl

omit [Regex] [LawfulRegex] in
theorem stopOf_eq_none : stopOf o = .ok none ↔ o = .ok none := by
  refine ⟨stopOf_eq_broken (b := none), ?_⟩
  rintro rfl
  rfl

theorem stops_none_iff (tag : String) :
    Stops g text v pos (.ok none) ↔ Ends g text v pos tag (.ok none) := by
  obtain ⟨o, ho⟩ := exists_ends g text v pos tag
  rw [stops_iff_of_ends ho, stopOf_eq_none]
  constructor
  · rintro ⟨-, rfl⟩
    exact ho
  · exact fun h => ⟨by simp, ho.unique h⟩

/-- Evaluations stop in the same place, or come to no end, if their validators stop in the same
places. -/
theorem stopOf_eq_of_stops {w : Validator} (ho : Ends g text v pos tag o)
    (hm : Ends g text w pos tag m) (same : ∀ x, Stops g text v pos x ↔ Stops g text w pos x) :
    stopOf o = stopOf m := by
  have agree : ∀ x, x ≠ .error .depthExceeded → (stopOf o = x ↔ stopOf m = x) := by
    intro x hx
    have := same x
    rw [stops_iff_of_ends ho, stops_iff_of_ends hm] at this
    simpa [hx] using this
  by_cases ended : stopOf o = .error .depthExceeded
  · by_contra apart
    have other : stopOf m ≠ .error .depthExceeded := fun hx => apart (ended.trans hx.symm)
    exact apart ((agree _ other).mpr rfl)
  · exact ((agree _ ended).mp rfl).symm

end Ends

/-- Take any validator under a stack of quantifiers of which one repeats, and compare it with the
validator under a single repetition. Either ends in an error, or does not end, just as the other.
Otherwise the stack fails if and only if all its quantifiers ask for a match and the validator
fails; in all other cases it matches, and stops where the repetition does. -/
theorem quantifiers_collapse {tag : String} {o m : Outcome}
    (repeats : ∃ arity ∈ arities, arity ≠ .zeroOrOne)
    (stack : Ends g text (.stacked arities v) pos tag o)
    (repetition : Ends g text (.quantified v .zeroOrMore) pos tag m) :
    (∀ e, o = .error e ↔ m = .error e) ∧
    (o = .ok none ↔
      (∀ arity ∈ arities, arity = .oneOrMore) ∧ Ends g text v pos tag (.ok none)) ∧
    ((∀ e, o ≠ .error e) → o ≠ .ok none →
      ∃ t u, o = .ok (some t) ∧ m = .ok (some u) ∧ t.stop = u.stop) := by
  rw [← stops_none_iff tag]
  change _ ∧ (_ ↔ Unmet g text arities v pos) ∧ _
  have fails : o = .ok none ↔ Unmet g text arities v pos := by
    rw [← stops_stacked_none, stops_iff_of_ends stack, stopOf_eq_none]
    simp
  by_cases unmet : Unmet g text arities v pos
  · have empty : Stops g text (.quantified v .zeroOrMore) pos (.ok (some pos)) :=
      .many (.of_none unmet.2)
    obtain ⟨u, rfl, -⟩ := stopOf_eq_some ((stops_iff_of_ends repetition).mp empty).2
    obtain rfl := fails.mpr unmet
    exact ⟨by simp, fails, fun _ matched => absurd rfl matched⟩
  · have same : stopOf o = stopOf m := stopOf_eq_of_stops stack repetition fun x => by
      rw [stops_stacked repeats, stops_repeated (by simp)]
      simp [unmet]
    refine ⟨fun e => ?_, fails, fun sound matched => ?_⟩
    · rw [← stopOf_eq_error, same, stopOf_eq_error]
    · rcases o with e | _ | t
      · exact absurd rfl (sound e)
      · exact absurd rfl matched
      · obtain ⟨u, hu, stop⟩ := stopOf_eq_some same.symm
        exact ⟨t, u, rfl, hu, stop.symm⟩

end Collapse

/-- At least one of at most one of any number of digits stops after two digits; at least one of at
least one fails where there is none. -/
theorem stacked_digits_stop :
    (∃ arity ∈ [Arity.oneOrMore, .zeroOrOne, .zeroOrMore], arity ≠ .zeroOrOne) ∧
      (∃ t, Ends ⟨"s", []⟩ (.ofString "12a") (.stacked [.oneOrMore, .zeroOrOne, .zeroOrMore]
        (Points.one .digitCharacter)) 0 "s" (.ok (some t)) ∧ t.stop = 2) ∧
      Ends ⟨"s", []⟩ (.ofString "a12") (.stacked [.oneOrMore, .oneOrMore]
        (Points.one .digitCharacter)) 0 "s" (.ok none) := by
  have repeats : ∃ arity ∈ [Arity.oneOrMore, .zeroOrOne, .zeroOrMore], arity ≠ .zeroOrOne :=
    ⟨.oneOrMore, by simp, by simp⟩
  refine ⟨repeats, ?_, ?_⟩
  · have run : evaluate ⟨"s", []⟩ (.ofString "12a") 2
        (.quantified (Points.one .digitCharacter) .zeroOrMore) 0 "s" =
          .ok (some (listNode "s" 0
            [.text ⟨"s", false, 0, 1⟩ "1", .text ⟨"s", false, 1, 2⟩ "2"])) := by rfl
    obtain ⟨o, stack⟩ := exists_ends ⟨"s", []⟩ (.ofString "12a")
      (.stacked [.oneOrMore, .zeroOrOne, .zeroOrMore] (Points.one .digitCharacter)) 0 "s"
    obtain ⟨errors, fails, stops⟩ :=
      quantifiers_collapse repeats stack (ends_of_evaluate run (by simp))
    obtain ⟨t, u, rfl, hu, stop⟩ := stops (by simp [errors]) (by simp [fails])
    cases hu
    exact ⟨t, stack, stop⟩
  · have run : evaluate ⟨"s", []⟩ (.ofString "a12") 2
        (.quantified (Points.one .digitCharacter) .zeroOrMore) 0 "s" =
          .ok (some (.empty 0 "s")) := by rfl
    have missing : evaluate ⟨"s", []⟩ (.ofString "a12") 1 (Points.one .digitCharacter) 0 "s" =
        .ok none := by rfl
    obtain ⟨o, stack⟩ := exists_ends ⟨"s", []⟩ (.ofString "a12")
      (.stacked [.oneOrMore, .oneOrMore] (Points.one .digitCharacter)) 0 "s"
    obtain ⟨-, fails, -⟩ :=
      quantifiers_collapse (by simp) stack (ends_of_evaluate run (by simp))
    obtain rfl := fails.mpr ⟨by simp, ends_of_evaluate missing (by simp)⟩
    exact stack

end Matching

end OrderedGrammar
