import OrderedGrammar.Pattern.Library
import OrderedGrammar.Points.Grammar
import OrderedGrammar.Proofs.Grammar.Reaches
import OrderedGrammar.Proofs.Matching.Depth

/-!
Evaluation depends on no rules but those that are reached. If another grammar keeps the rules that a
validator reaches, as far as they are declared, the validator comes to the same under both, at every
offset and within every depth, unless it comes to an undeclared rule (`evaluate_kept`). So the rules
that the entry rule does not reach can be changed, dropped, reordered or added, and undeclared rules
can be declared, and no parse is any different that ended before.
-/

namespace OrderedGrammar

namespace Grammar

variable [Regex]

/-- Whatever rule the validator reaches and the first grammar declares, the second declares it with
the same alternatives. -/
def KeptBy (g g' : Grammar) (v : Validator) : Prop :=
  ∀ name alternatives, g.Reaches v name → g.rule? name = some alternatives →
    g'.rule? name = some alternatives

variable {g g' : Grammar} {v : Validator}

theorem KeptBy.inner {arity : Arity} (h : g.KeptBy g' (.quantified v arity)) : g.KeptBy g' v :=
  fun name alternatives reached => h name alternatives reached.quantified

theorem KeptBy.item {items : List Validator} (h : g.KeptBy g' (.sequence items)) (hv : v ∈ items) :
    g.KeptBy g' v :=
  fun name alternatives reached => h name alternatives (reached.item hv)

theorem KeptBy.declared {name : String} {alternatives : List Validator}
    (h : g.KeptBy g' (.ref name)) (rule : g.rule? name = some alternatives) :
    g'.rule? name = some alternatives :=
  h name alternatives (reaches_ref.mpr .refl) rule

theorem KeptBy.alternative {name : String} {alternatives : List Validator}
    (h : g.KeptBy g' (.ref name)) (rule : g.rule? name = some alternatives)
    (hv : v ∈ alternatives) : g.KeptBy g' v :=
  fun other others reached => h other others (reached.alternative rule hv)

end Grammar

namespace Matching

variable [Regex] {g g' : Grammar} {text : Text} {depth pos : Nat} {v : Validator} {tag : String}

/-- Evaluation came to a rule that is not declared. -/
def IsUndeclared (e : EvalError) : Prop := ∃ name, e = .undefinedRule name

/-- In a grammar that keeps the rules that a validator reaches, the validator comes to the same,
unless it came to an undeclared rule. -/
theorem agreeUnless_kept (kept : g.KeptBy g' v) :
    AgreeUnless IsUndeclared (Option.Rel Eq) (evaluate g text depth v pos tag)
      (evaluate g' text depth v pos tag) := by
  induction depth generalizing v pos tag with
  | zero => exact agreeUnless_error .depthExceeded
  | succ depth ih =>
    cases v with
    | terminal t => exact agreeUnless_self fun _ _ => rfl
    | ref name =>
      cases rule : g.rule? name with
      | none =>
        rw [evaluate_ref_of_none rule]
        exact agreeUnless_excused ⟨name, rfl⟩
      | some alternatives =>
        have rule' : g'.rule? name = some (alternatives.map id) := by
          rw [List.map_id]
          exact kept.declared rule
        refine agreeUnless_ref rule rule' ?_ fun v hv => ih (kept.alternative rule hv)
        rintro t _ rfl
        rfl
    | quantified inner arity =>
      exact agreeUnless_quantified (kept_eq tag) (fun p => ih kept.inner) arity pos
    | sequence items =>
      exact agreeUnless_sequence (kept_eq tag) (fun v hv p => ih (kept.item hv)) pos
    | foreign x => exact agreeUnless_error _

/-- Evaluations that do not come to an undeclared rule are not changed. -/
theorem evaluate_kept (kept : g.KeptBy g' v)
    (ends : ∀ name, evaluate g text depth v pos tag ≠ .error (.undefinedRule name)) :
    evaluate g' text depth v pos tag = evaluate g text depth v pos tag := by
  refine (agreeUnless_kept kept ?_).eq eq_of_option_rel
  rintro _ ⟨name, rfl⟩
  exact ends name

end Matching

namespace Grammar

/-- Only the rules that are reached from the entry rule matter to a parse. Under any grammar with
the same entry rule that keeps those of them that are declared, a text that is not found to need an
undeclared rule is parsed to the same tree, to no match, or to the same error. The same holds of
matching any validator at any place, within any depth, and of the rules that it reaches. -/
theorem unreached_rules_ignored [Regex] (g g' : Grammar) (text : Text) :
    (g'.entry = g.entry → g.KeptBy g' (.ref g.entry) →
      (∀ name, g.parse text ≠ .error (.undefinedRule name)) → g'.parse text = g.parse text) ∧
    ∀ v, g.KeptBy g' v → ∀ depth pos tag,
      (∀ name, Matching.evaluate g text depth v pos tag ≠ .error (.undefinedRule name)) →
        Matching.evaluate g' text depth v pos tag = Matching.evaluate g text depth v pos tag := by
  refine ⟨?_, fun v kept depth pos tag ends => Matching.evaluate_kept kept ends⟩
  intro entry kept ends
  change Matching.evaluate g' text Matching.depthLimit (.ref g'.entry) 0 g'.entry = _
  rw [entry]
  exact Matching.evaluate_kept kept ends

/-- A digit, or else a rule that is not declared, and a rule that nothing refers to. -/
def openEnded : Grammar :=
  ⟨"start", [("aside", [.ref "start"]),
    ("start", [Points.one .digitCharacter, .ref "rest"])]⟩

/-- The missing rule declared before the others, and the rule aside dropped for another one. -/
def completed : Grammar :=
  ⟨"start", [("rest", [Points.one .minusSign]),
    ("start", [Points.one .digitCharacter, .ref "rest"]), ("other", [.ref "missing"])]⟩

theorem openEnded_keptBy_completed : openEnded.KeptBy completed (.ref "start") := by
  intro name alternatives reached declared
  have rule := mem_rules_of_rule? declared
  simp only [openEnded, List.mem_cons, Prod.mk.injEq, List.not_mem_nil, or_false] at rule
  obtain ⟨rfl, rfl⟩ | ⟨rfl, rfl⟩ := rule
  · -- nothing refers to the rule aside
    exact absurd reached
      (not_reaches_of_order (["aside", "start", "rest"].idxOf ·) (by decide) (by decide))
  · rfl

theorem openEnded_digit_parsed_alike :
    completed.entry = openEnded.entry ∧ openEnded.KeptBy completed (.ref openEnded.entry) ∧
      openEnded.parse (.ofString "7") = .ok (some (.text ⟨"start", true, 0, 1⟩ "7")) ∧
      completed.parse (.ofString "7") = openEnded.parse (.ofString "7") ∧
      Matching.evaluate openEnded #['-', '7'] 3 (.ref "start") 1 "" =
        .ok (some (.text ⟨"start", true, 1, 2⟩ "7")) ∧
      Matching.evaluate completed #['-', '7'] 3 (.ref "start") 1 "" =
        Matching.evaluate openEnded #['-', '7'] 3 (.ref "start") 1 "" := by
  have parsed : openEnded.parse (.ofString "7") = .ok (some (.text ⟨"start", true, 0, 1⟩ "7")) := by
    cbv
  have matched : Matching.evaluate openEnded #['-', '7'] 3 (.ref "start") 1 "" =
      .ok (some (.text ⟨"start", true, 1, 2⟩ "7")) := by cbv
  refine ⟨rfl, openEnded_keptBy_completed, parsed, ?_, matched, ?_⟩
  · refine (unreached_rules_ignored openEnded completed _).1 rfl openEnded_keptBy_completed ?_
    simp [parsed]
  · refine (unreached_rules_ignored openEnded completed _).2 _ openEnded_keptBy_completed 3 1 "" ?_
    simp [matched]

end Grammar

end OrderedGrammar
